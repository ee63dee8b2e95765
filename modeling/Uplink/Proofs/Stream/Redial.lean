import Mathlib.Data.Finset.Card
import Uplink.Proofs.Stream.Closed
import Uplink.Proofs.Stream.Reading

/-! Dialing again. A stream that dials again leaves a socket only because that socket has failed: a
ping of an older socket has had its turn before the reader takes the older socket away, and what it
asked for is forgotten before the newer socket is read. So no socket is lost twice, and none is lost
that has not failed. -/

namespace Uplink.Stream

/-- Whether an event tells of a new socket or of a lost one. -/
def Event.isOfSocket : Event → Bool
  | .installed _ | .dialEnded _ true | .lost .. | .entered .reconnecting => true
  | _ => false

/-- The socket that an event shows to have failed: the far end closed it, it could not be read or
had ended, or a ping could not be written to it. -/
def Event.failed? : Event → Option SocketId
  | .read s .close | .lost s .failed | .lost s .ended | .pingFailed (some s) => some s
  | _ => none

/-- Whether the reader reads a socket, or is about to give it up. -/
def ReaderPoint.isReading : ReaderPoint → Bool
  | .selecting | .offering _ | .forgetting _ | .answering _ | .ponging .. | .losing _ => true
  | _ => false

/-- Whether the reader has taken a socket away and has not come to read another one. -/
def ReaderPoint.isReplacing : ReaderPoint → Bool
  | .discarding .. | .resting _ | .redialing | .dialing _ | .placing _ | .opening _ => true
  | _ => false

theorem ReaderPoint.elsewhere_of_isReading {p : ReaderPoint} (h : p.isReading = true) :
    p ≠ .retiring ∧ p.isReplacing = false ∧ (∀ s, p ≠ .opening s) ∧ p.incoming? = none := by
  cases p <;> first
    | exact ⟨ReaderPoint.noConfusion, rfl, fun _ => ReaderPoint.noConfusion, rfl⟩
    | cases h

/-- Whether the heartbeat has a ping at hand. -/
def HeartbeatPoint.pings : HeartbeatPoint → Bool
  | .waiting _ | .pinging .. | .failing _ => true
  | _ => false

namespace Connection

/-- How many dials have succeeded. -/
def dials (history : List Event) : Nat :=
  history.countP fun
    | .dialEnded _ true => true
    | _ => false

/-- The sockets that were lost, in order. -/
def lostSockets (history : List Event) : List SocketId :=
  history.filterMap fun
    | .lost s _ => some s
    | _ => none

/-- How often the stream began to dial again. -/
def reconnections (history : List Event) : Nat :=
  history.countP fun
    | .entered .reconnecting => true
    | _ => false

/-- The sockets that have failed. -/
def failedSockets (history : List Event) : Finset SocketId :=
  (history.filterMap Event.failed?).toFinset

/-- The write half of the socket of the latest dial that succeeded was put in place, and what came
since. -/
structure Latest (history : List Event) (s : SocketId) (since : List Event) : Prop where
  installed : ∃ before, history = before ++ .installed s :: since ∧ dials before = s + 1
  dials : dials since = 0
  only : ∀ s', .installed s' ∉ since

variable {c c' : Connection} {history events since : List Event} {s : SocketId} {t : Task}
  {m : Move} {sig : Signal}

/-! ### Histories -/

theorem dials_append : dials (history ++ events) = dials history + dials events :=
  List.countP_append

theorem dials_eq_zero (h : ∀ e ∈ events, e.isOfSocket = false) : dials events = 0 := by
  refine List.countP_eq_zero.mpr fun e he => ?_
  have hnot := h e he
  split
  · simp [Event.isOfSocket] at hnot
  · simp

theorem lostSockets_append :
    lostSockets (history ++ events) = lostSockets history ++ lostSockets events :=
  List.filterMap_append

theorem lostSockets_eq_nil (h : ∀ e ∈ events, e.isOfSocket = false) : lostSockets events = [] := by
  refine List.filterMap_eq_nil_iff.mpr fun e he => ?_
  have hnot := h e he
  split
  · simp [Event.isOfSocket] at hnot
  · rfl

theorem reconnections_append :
    reconnections (history ++ events) = reconnections history + reconnections events :=
  List.countP_append

theorem reconnections_eq_zero (h : ∀ e ∈ events, e.isOfSocket = false) :
    reconnections events = 0 := by
  refine List.countP_eq_zero.mpr fun e he => ?_
  have hnot := h e he
  split
  · simp [Event.isOfSocket] at hnot
  · simp

theorem mem_failedSockets :
    s ∈ failedSockets history ↔ ∃ e ∈ history, e.failed? = some s := by
  simp [failedSockets]

theorem Latest.append (h : Latest history s since) (hevents : ∀ e ∈ events, e.isOfSocket = false) :
    Latest (history ++ events) s (since ++ events) where
  installed := by
    obtain ⟨before, rfl, hbefore⟩ := h.installed
    exact ⟨before, by simp, hbefore⟩
  dials := by rw [dials_append, h.dials, dials_eq_zero hevents]
  only := by
    intro s' hs'
    rcases List.mem_append.mp hs' with hs' | hs'
    · exact h.only s' hs'
    · cases hevents _ hs'

theorem Latest.subset (h : Latest history s since) {e : Event} (he : e ∈ since) : e ∈ history := by
  obtain ⟨before, rfl, -⟩ := h.installed
  exact List.mem_append_right _ (List.mem_cons_of_mem _ he)

/-- No socket was lost twice, and each one that was lost has failed. -/
structure Counted (history : List Event) : Prop where
  reconnections : reconnections history = (lostSockets history).length
  nodup : (lostSockets history).Nodup
  failed : ∀ s ∈ lostSockets history, s ∈ failedSockets history

theorem Counted.le_card (h : Counted history) :
    Connection.reconnections history ≤ (failedSockets history).card := by
  rw [h.reconnections, ← List.toFinset_card_of_nodup h.nodup]
  exact Finset.card_le_card fun s hs => h.failed s (List.mem_toFinset.mp hs)

theorem Counted.append (h : Counted history) (hlost : lostSockets events = [])
    (hreconnections : Connection.reconnections events = 0) : Counted (history ++ events) where
  reconnections := by
    rw [reconnections_append, hreconnections, lostSockets_append, hlost, List.append_nil,
      Nat.add_zero, h.reconnections]
  nodup := by
    rw [lostSockets_append, hlost, List.append_nil]
    exact h.nodup
  failed := by
    intro s hs
    rw [lostSockets_append, hlost, List.append_nil] at hs
    obtain ⟨e, he, hfailed⟩ := mem_failedSockets.mp (h.failed s hs)
    exact mem_failedSockets.mpr ⟨e, List.mem_append_left _ he, hfailed⟩

/-- A socket that has failed, and was not lost before, is lost. -/
theorem Counted.lose {cause : Loss} (h : Counted history) (hs : s ∉ lostSockets history)
    (hfailed : s ∈ failedSockets (history ++ [.lost s cause, .entered .reconnecting])) :
    Counted (history ++ [.lost s cause, .entered .reconnecting]) where
  reconnections := by
    rw [reconnections_append, lostSockets_append, List.length_append, h.reconnections]
    rfl
  nodup := by
    rw [lostSockets_append]
    refine List.nodup_append.mpr ⟨h.nodup, List.nodup_singleton s, fun a ha b hb => ?_⟩
    cases List.mem_singleton.mp hb
    exact fun heq => hs (heq ▸ ha)
  failed := by
    intro s' hs'
    rw [lostSockets_append] at hs'
    rcases List.mem_append.mp hs' with hs' | hs'
    · obtain ⟨e, he, hfailed⟩ := mem_failedSockets.mp (h.failed s' hs')
      exact mem_failedSockets.mpr ⟨e, List.mem_append_left _ he, hfailed⟩
    · cases List.mem_singleton.mp hs'
      exact hfailed

/-! ### Streams that dial again -/

/-- Whether a ping has failed that the reader is still to hear of. -/
def asksToRedial (c : Connection) : Bool :=
  c.wake || match c.heartbeat.point with
    | .failing _ => true
    | _ => false

/-- A stream that dials again is ended only by calls to close. -/
structure EndsByCalls (c : Connection) : Prop where
  reconnect : c.settings.reconnect = true
  reader : ∀ e, c.reader.point ≠ .ending e
  heartbeat : ∀ e, c.heartbeat.point ≠ .ending e

/-- What is shown of the socket that the reader reads, after a history. -/
structure Shown (c : Connection) (history since : List Event) : Prop where
  latest : Latest history c.source since
  asked : c.asksToRedial = true ∨ c.reader.point = .losing .heartbeat →
    .pingFailed (some c.source) ∈ since
  closed : c.reader.point = .losing .closedByPeer → .read c.source .close ∈ since

/-- What holds of the sockets of a stream that is not cancelled, after a history. -/
structure Redials (c : Connection) (history : List Event) : Prop where
  reading : c.reader.point.isReading = true → c.state = .opened ∧ c.sink = some c.source ∧
    ∀ s since next, c.heartbeat.point = .pinging s since next → s = c.source
  shown : c.reader.point.isReading = true → ∃ since, Shown c history since
  /-- A ping that waits has its turn before the reader takes the old socket away. -/
  retiring : c.reader.point = .retiring → c.state ≠ .opened ∧
    ∀ next, c.heartbeat.point = .waiting next → .heartbeat ∈ c.turn.ahead .reader
  replacing : c.reader.point.isReplacing = true →
    c.state ≠ .opened ∧ c.heartbeat.point.pings = false
  opening : ∀ s, c.reader.point = .opening s →
    c.sink = some s ∧ ∃ since, Latest history s since
  dials : dials history = c.sockets
  source_lt : c.source < c.sockets
  incoming : ∀ s, c.reader.point.incoming? = some s → c.source < s ∧ s + 1 = c.sockets
  lost : ∀ s ∈ lostSockets history, s ≤ c.source ∧ (c.reader.point.isReading = true → s < c.source)

theorem Shown.of_asked (h : Shown c history since) (hpoint : c'.reader.point = c.reader.point)
    (hsource : c'.source = c.source)
    (hasked : c'.asksToRedial = true →
      c.asksToRedial = true ∨ .pingFailed (some c.source) ∈ events)
    (hevents : ∀ e ∈ events, e.isOfSocket = false) :
    Shown c' (history ++ events) (since ++ events) where
  latest := hsource ▸ h.latest.append hevents
  asked := by
    rw [hpoint, hsource]
    rintro (hnow | hp)
    · rcases hasked hnow with hbefore | hfailed
      · exact List.mem_append_left _ (h.asked (.inl hbefore))
      · exact List.mem_append_right _ hfailed
    · exact List.mem_append_left _ (h.asked (.inr hp))
  closed := by
    rw [hpoint, hsource]
    exact fun hp => List.mem_append_left _ (h.closed hp)

namespace Redials

variable (h : Redials c history)
include h

/-- What leaves the reader where it is, and the sockets as they are. -/
theorem keep (hpoint : c'.reader.point = c.reader.point) (hstate : c'.state = c.state)
    (hsink : c'.sink = c.sink) (hsource : c'.source = c.source) (hsockets : c'.sockets = c.sockets)
    (hpinging : c.reader.point.isReading = true → ∀ s since next,
      c'.heartbeat.point = .pinging s since next → s = c.source)
    (hasked : c.reader.point.isReading = true → c'.asksToRedial = true →
      c.asksToRedial = true ∨ .pingFailed (some c.source) ∈ events)
    (hwaiting : c.reader.point = .retiring → ∀ next, c'.heartbeat.point = .waiting next →
      .heartbeat ∈ c'.turn.ahead .reader)
    (hreplacing : c.reader.point.isReplacing = true → c'.heartbeat.point.pings = false)
    (hevents : ∀ e ∈ events, e.isOfSocket = false) : Redials c' (history ++ events) where
  reading := by
    rw [hpoint, hstate, hsink, hsource]
    intro hreading
    exact ⟨(h.reading hreading).1, (h.reading hreading).2.1, hpinging hreading⟩
  shown := by
    rw [hpoint]
    intro hreading
    obtain ⟨since, hshown⟩ := h.shown hreading
    exact ⟨since ++ events, hshown.of_asked hpoint hsource (hasked hreading) hevents⟩
  retiring := by
    rw [hpoint, hstate]
    exact fun hp => ⟨(h.retiring hp).1, hwaiting hp⟩
  replacing := by
    rw [hpoint, hstate]
    exact fun hp => ⟨(h.replacing hp).1, hreplacing hp⟩
  opening := by
    rw [hpoint, hsink]
    intro s hp
    obtain ⟨hs, since, hlatest⟩ := h.opening s hp
    exact ⟨hs, since ++ events, hlatest.append hevents⟩
  dials := by rw [dials_append, dials_eq_zero hevents, h.dials, hsockets, Nat.add_zero]
  source_lt := by
    rw [hsource, hsockets]
    exact h.source_lt
  incoming := by
    rw [hpoint, hsource, hsockets]
    exact h.incoming
  lost := by
    rw [hpoint, hsource, lostSockets_append, lostSockets_eq_nil hevents, List.append_nil]
    exact h.lost

/-- What a task other than the reader and the heartbeat does, or what happens to no task. -/
theorem same (hpoint : c'.reader.point = c.reader.point) (hstate : c'.state = c.state)
    (hsink : c'.sink = c.sink) (hsource : c'.source = c.source) (hsockets : c'.sockets = c.sockets)
    (hwake : c'.wake = c.wake) (hheartbeat : c'.heartbeat.point = c.heartbeat.point)
    (hahead : c.reader.point = .retiring → .heartbeat ∈ c.turn.ahead .reader →
      .heartbeat ∈ c'.turn.ahead .reader)
    (hevents : ∀ e ∈ events, e.isOfSocket = false) : Redials c' (history ++ events) := by
  refine h.keep hpoint hstate hsink hsource hsockets (fun hreading => ?_) (fun _ hasked => ?_)
    (fun hp next hwaiting => ?_) (fun hp => ?_) hevents
  · rw [hheartbeat]
    exact (h.reading hreading).2.2
  · rw [asksToRedial, hwake, hheartbeat] at hasked
    exact .inl hasked
  · exact hahead hp ((h.retiring hp).2 next (hheartbeat ▸ hwaiting))
  · rw [hheartbeat]
    exact (h.replacing hp).2

/-- The heartbeat comes to a point without a ping at hand. -/
theorem rests {d : Connection} {p : HeartbeatPoint} (hreader : d.reader.point = c.reader.point)
    (hstate : d.state = c.state) (hsink : d.sink = c.sink) (hsource : d.source = c.source)
    (hsockets : d.sockets = c.sockets) (hp : p.pings = false)
    (hwake : d.wake = true → c.asksToRedial = true)
    (hevents : ∀ e ∈ events, e.isOfSocket = false) :
    Redials (d.heartbeatAt p) (history ++ events) := by
  have hnow : (d.heartbeatAt p).heartbeat.point.pings = false := hp
  refine h.keep hreader hstate hsink hsource hsockets (fun _ s since next hping => ?_)
    (fun _ hasked => .inl (hwake ?_)) (fun _ next hwaiting => ?_) (fun _ => hp) hevents
  · rw [hping] at hnow; cases hnow
  · cases p with
    | waiting | pinging | failing => cases hp
    | _ => exact (Bool.or_false _).symm.trans hasked
  · rw [hwaiting] at hnow; cases hnow

theorem of_heartbeatStep (hends : EndsByCalls c) (hcancelled : c.cancelled = false)
    (hstep : HeartbeatStep c c' events) : Redials c' (history ++ events) := by
  have hwake : c.wake = true → c.asksToRedial = true := fun hw => by simp [asksToRedial, hw]
  have hnot : c.heartbeat.point.pings = true → c.reader.point.isReplacing ≠ true := by
    intro hpings hp
    cases hpings.symm.trans (h.replacing hp).2
  cases hstep with
  | stop _ hstop => rw [hcancelled] at hstop; cases hstop
  | giveUp _ hreconnect => rw [hends.reconnect] at hreconnect; cases hreconnect
  | ending hp => exact absurd hp (hends.heartbeat _)
  | tick hp | skip hp => exact h.rests rfl rfl rfl rfl rfl rfl hwake (by simp)
  | pinged hp => exact h.rests rfl rfl rfl rfl rfl rfl hwake (by simp [Event.isOfSocket])
  | wake hp =>
    exact h.rests rfl rfl rfl rfl rfl rfl (fun _ => by simp [asksToRedial, hp]) (by simp)
  | ready hp hopened =>
    refine h.keep rfl rfl rfl rfl rfl (fun _ _ _ _ => HeartbeatPoint.noConfusion)
      (fun _ hasked => .inl (hwake ?_)) (fun hr => absurd hopened (h.retiring hr).1)
      (fun hr => absurd hopened (h.replacing hr).1) (by simp)
    exact (Bool.or_false _).symm.trans hasked
  | miss hp hmay hnone =>
    have hpings : c.heartbeat.point.pings = true := by rw [hp]; rfl
    have hreading : c.reader.point.isReading ≠ true := by
      intro hreading
      cases hnone.symm.trans (h.reading hreading).2.1
    exact h.keep rfl rfl rfl rfl rfl (fun hr => absurd hr hreading) (fun hr => absurd hr hreading)
      (fun _ _ => HeartbeatPoint.noConfusion) (fun hr => absurd hr (hnot hpings))
      (by simp [Event.isOfSocket])
  | @ping next s hp hmay hsome =>
    have hpings : c.heartbeat.point.pings = true := by rw [hp]; rfl
    refine h.keep rfl rfl rfl rfl rfl (fun hr s' since' next' hping => ?_)
      (fun _ hasked => .inl (hwake ?_)) (fun _ _ => HeartbeatPoint.noConfusion)
      (fun hr => absurd hr (hnot hpings)) (by simp)
    · cases hping
      exact Option.some.inj (hsome.symm.trans (h.reading hr).2.1)
    · exact (Bool.or_false _).symm.trans hasked
  | @pingFailed s since next hp =>
    have hpings : c.heartbeat.point.pings = true := by rw [hp]; rfl
    refine h.keep rfl rfl rfl rfl rfl (fun _ _ _ _ => HeartbeatPoint.noConfusion)
      (fun hr _ => .inr ?_) (fun _ _ => HeartbeatPoint.noConfusion)
      (fun hr => absurd hr (hnot hpings)) (by simp [Event.isOfSocket])
    rw [(h.reading hr).2.2 s since next hp]
    simp

/-- The reader goes on to read its socket, or is about to give it up. -/
theorem readOn {d : Connection} {p : ReaderPoint} (hwas : c.reader.point.isReading = true)
    (hp : p.isReading = true) (hstate : d.state = c.state) (hsink : d.sink = c.sink)
    (hsource : d.source = c.source) (hsockets : d.sockets = c.sockets)
    (hheartbeat : d.heartbeat.point = c.heartbeat.point)
    (hwake : d.wake = true ∨ p = .losing .heartbeat → c.wake = true)
    (hclosed : p = .losing .closedByPeer → .read c.source .close ∈ events)
    (hevents : ∀ e ∈ events, e.isOfSocket = false) :
    Redials (d.readerAt p) (history ++ events) := by
  obtain ⟨hretiring, hreplacing, hopening, hincoming⟩ := ReaderPoint.elsewhere_of_isReading hp
  refine ⟨fun _ => ?_, fun _ => ?_, fun hr => absurd hr hretiring,
    fun hr => absurd hr (by simp [hreplacing]), fun s hr => absurd hr (hopening s), ?_, ?_,
    fun s hs => ?_, fun s hs => ?_⟩
  · obtain ⟨hopened, hsome, hpinging⟩ := h.reading hwas
    exact ⟨hstate.trans hopened, (hsink.trans hsome).trans (congrArg some hsource.symm),
      fun s since next hping => (hpinging s since next (hheartbeat ▸ hping)).trans hsource.symm⟩
  · obtain ⟨since, hshown⟩ := h.shown hwas
    refine ⟨since ++ events, ?_, ?_, ?_⟩
    · exact hsource ▸ hshown.latest.append hevents
    · rintro (hasked | hr)
      · have hbefore : c.asksToRedial = true := by
          have hsame : (d.readerAt p).heartbeat.point = c.heartbeat.point := hheartbeat
          rw [asksToRedial, hsame, Bool.or_eq_true] at hasked
          rw [asksToRedial, Bool.or_eq_true]
          exact hasked.imp_left fun hw => hwake (.inl hw)
        exact List.mem_append_left _ (hsource ▸ hshown.asked (.inl hbefore))
      · have hbefore : c.asksToRedial = true := by simp [asksToRedial, hwake (.inr hr)]
        exact List.mem_append_left _ (hsource ▸ hshown.asked (.inl hbefore))
    · intro hr
      exact List.mem_append_right _ (hsource ▸ hclosed hr)
  · rw [dials_append, dials_eq_zero hevents, h.dials]
    exact hsockets.symm
  · exact (hsource.trans_lt h.source_lt).trans_eq hsockets.symm
  · cases hincoming.symm.trans hs
  · rw [lostSockets_append, lostSockets_eq_nil hevents, List.append_nil] at hs
    have hlt := (h.lost s hs).2 hwas
    have hsame : (d.readerAt p).source = c.source := hsource
    exact ⟨hsame ▸ Nat.le_of_lt hlt, fun _ => hsame ▸ hlt⟩

/-- The reader goes on between two sockets. -/
theorem replaceOn {d : Connection} {p : ReaderPoint} (hp : p.isReplacing = true)
    (hincoming : p.incoming? = none) (hnot : d.state ≠ .opened) (hsource : d.source = c.source)
    (hsockets : d.sockets = c.sockets) (hpings : d.heartbeat.point.pings = false)
    (hevents : ∀ e ∈ events, e.isOfSocket = false) :
    Redials (d.readerAt p) (history ++ events) := by
  have hno : p.isReading = false ∧ p ≠ .retiring ∧ ∀ s, p ≠ .opening s := by
    cases p with
    | discarding | resting | redialing | dialing =>
      exact ⟨rfl, ReaderPoint.noConfusion, fun _ => ReaderPoint.noConfusion⟩
    | placing | opening => cases hincoming
    | _ => cases hp
  obtain ⟨hreading, hretiring, hopening⟩ := hno
  refine ⟨fun hr => ?_, fun hr => ?_, fun hr => absurd hr hretiring, fun _ => ⟨hnot, hpings⟩,
    fun s hr => absurd hr (hopening s), ?_, ?_, fun s hs => ?_, fun s hs => ?_⟩
  · cases hreading.symm.trans hr
  · cases hreading.symm.trans hr
  · rw [dials_append, dials_eq_zero hevents, h.dials]
    exact hsockets.symm
  · exact (hsource.trans_lt h.source_lt).trans_eq hsockets.symm
  · cases hincoming.symm.trans hs
  · rw [lostSockets_append, lostSockets_eq_nil hevents, List.append_nil] at hs
    refine ⟨?_, fun hr => by cases hreading.symm.trans hr⟩
    rw [show (d.readerAt p).source = c.source from hsource]
    exact (h.lost s hs).1

/-- The reader stops, or is ended. -/
theorem stops {d : Connection} (hsource : d.source = c.source) (hsockets : d.sockets = c.sockets)
    (hevents : ∀ e ∈ events, e.isOfSocket = false) :
    Redials (d.readerAt .finished) (history ++ events) := by
  refine ⟨Bool.noConfusion, Bool.noConfusion, ReaderPoint.noConfusion, Bool.noConfusion,
    fun _ => ReaderPoint.noConfusion, ?_, ?_, fun s hs => ?_, fun s hs => ?_⟩
  · rw [dials_append, dials_eq_zero hevents, h.dials]
    exact hsockets.symm
  · exact (hsource.trans_lt h.source_lt).trans_eq hsockets.symm
  · cases hs
  · rw [lostSockets_append, lostSockets_eq_nil hevents, List.append_nil] at hs
    refine ⟨?_, Bool.noConfusion⟩
    rw [show (d.readerAt .finished).source = c.source from hsource]
    exact (h.lost s hs).1

/-- The reader gives up its socket. -/
theorem lose {cause : Loss} (hturn : InTurn c)
    (hquiet : c.isQuiet .heartbeat = true) (hp : c.reader.point = .losing cause) :
    Redials ((c.setState .reconnecting).readerAt .retiring)
      (history ++ [.lost c.source cause, .entered .reconnecting]) := by
  have hnotin : Task.reader ∉ c.turn.queue := fun hmem => by
    cases (hturn.awaitsTurn_of_mem (standing?_reader hp) hmem).1
  refine ⟨Bool.noConfusion, Bool.noConfusion, fun _ => ⟨State.noConfusion, fun next hwaiting => ?_⟩,
    Bool.noConfusion, fun _ => ReaderPoint.noConfusion, ?_, h.source_lt, fun s hs => ?_,
    fun s hs => ?_⟩
  · have hpoint : c.heartbeat.point = .waiting next := hwaiting
    have hmem := hturn.mem_queue_of_quiet hquiet (standing?_heartbeat hpoint) rfl
    show Task.heartbeat ∈ c.turn.ahead .reader
    rw [Turn.ahead_of_not_mem hnotin]
    exact hmem
  · rw [dials_append, h.dials]
    rfl
  · cases hs
  · rw [lostSockets_append] at hs
    refine ⟨?_, Bool.noConfusion⟩
    rcases List.mem_append.mp hs with hs | hs
    · exact (h.lost s hs).1
    · cases List.mem_singleton.mp hs
      exact Nat.le_refl c.source

/-- When the reader takes its old socket away, no ping is at hand. -/
theorem pings_of_mayTake (hturn : InTurn c) (hquiet : c.isQuiet .heartbeat = true)
    (hp : c.reader.point = .retiring) (hmay : c.turn.mayTake .reader = true) :
    c.heartbeat.point.pings = false := by
  cases hping : c.heartbeat.point with
  | waiting next =>
    have hahead := (h.retiring hp).2 next hping
    rw [Turn.ahead_of_mayTake hmay] at hahead
    cases hahead
  | pinging =>
    have hholder := hturn.holding _ _ _ (standing?_heartbeat hping) rfl
    rw [Turn.holder_of_mayTake hmay] at hholder
    cases hholder
  | failing => cases hturn.mayPark_of_quiet hquiet (standing?_heartbeat hping) rfl
  | _ => rfl

/-- A dial has succeeded. -/
theorem dialed {since : Instant} (hp : c.reader.point = .dialing since) :
    Redials (({ c with sockets := c.sockets + 1 }).readerAt (.placing c.sockets))
      (history ++ [.dialEnded c.now true]) := by
  have hreplacing : c.reader.point.isReplacing = true := by rw [hp]; rfl
  refine ⟨Bool.noConfusion, Bool.noConfusion, ReaderPoint.noConfusion,
    fun _ => h.replacing hreplacing, fun _ => ReaderPoint.noConfusion, ?_,
    Nat.lt_succ_of_lt h.source_lt, fun s hs => ?_, fun s hs => ?_⟩
  · rw [dials_append, h.dials]
    rfl
  · cases hs
    exact ⟨h.source_lt, rfl⟩
  · rw [lostSockets_append] at hs
    rcases List.mem_append.mp hs with hs | hs
    · exact ⟨(h.lost s hs).1, Bool.noConfusion⟩
    · cases hs

/-- The write half of a new socket is put in place. -/
theorem place {turn : Turn Task} (hp : c.reader.point = .placing s) :
    Redials (({ c with sink := some s, turn }).readerAt (.opening s))
      (history ++ [.installed s]) := by
  have hreplacing : c.reader.point.isReplacing = true := by rw [hp]; rfl
  obtain ⟨hlt, hsockets⟩ := h.incoming s (by rw [hp]; rfl)
  refine ⟨Bool.noConfusion, Bool.noConfusion, ReaderPoint.noConfusion,
    fun _ => h.replacing hreplacing, fun s' hs' => ?_, ?_, h.source_lt, fun s' hs' => ?_,
    fun s' hs' => ?_⟩
  · cases hs'
    exact ⟨rfl, [], ⟨history, rfl, h.dials.trans hsockets.symm⟩, rfl, fun _ => List.not_mem_nil⟩
  · rw [dials_append, h.dials]
    rfl
  · cases hs'
    exact ⟨hlt, hsockets⟩
  · rw [lostSockets_append] at hs'
    rcases List.mem_append.mp hs' with hs' | hs'
    · exact ⟨(h.lost s' hs').1, Bool.noConfusion⟩
    · cases hs'

/-- The reader comes to read a new socket; no ping of an older one is at hand. -/
theorem reopen (hp : c.reader.point = .opening s) :
    Redials ((c.reopen s).readerAt .selecting)
      (history ++ [.heard c.wall, .entered .opened]) := by
  have hpings : c.heartbeat.point.pings = false := (h.replacing (by rw [hp]; rfl)).2
  obtain ⟨hsink, since, hlatest⟩ := h.opening s hp
  obtain ⟨hlt, hsockets⟩ := h.incoming s (by rw [hp]; rfl)
  have hevents : ∀ e ∈ [Event.heard c.wall, .entered .opened], e.isOfSocket = false := by
    simp [Event.isOfSocket]
  have hpoint : ((c.reopen s).readerAt .selecting).heartbeat.point = c.heartbeat.point := rfl
  refine ⟨fun _ => ⟨rfl, hsink, fun s' since' next hping => ?_⟩,
    fun _ => ⟨_, hlatest.append hevents, ?_, ReaderPoint.noConfusion⟩, ReaderPoint.noConfusion,
    Bool.noConfusion, fun _ => ReaderPoint.noConfusion, ?_, hsockets ▸ Nat.lt_succ_self s,
    fun s' hs' => ?_, fun s' hs' => ?_⟩
  · rw [← hpoint, hping] at hpings
    cases hpings
  · rintro (hasked | hr)
    · rw [asksToRedial, hpoint] at hasked
      cases hping : c.heartbeat.point with
      | waiting | pinging | failing => rw [hping] at hpings; cases hpings
      | _ => rw [hping] at hasked; cases hasked
    · cases hr
  · rw [dials_append, dials_eq_zero hevents, h.dials]
    rfl
  · cases hs'
  · rw [lostSockets_append, lostSockets_eq_nil hevents, List.append_nil] at hs'
    have hle := Nat.lt_of_le_of_lt (h.lost s' hs').1 hlt
    exact ⟨Nat.le_of_lt hle, fun _ => hle⟩

theorem of_readerStep (hends : EndsByCalls c) (hturn : InTurn c)
    (hquiet : c.isQuiet .heartbeat = true) (hcancelled : c.cancelled = false)
    (hstep : ReaderStep c c' events) : Redials c' (history ++ events) := by
  have hstop : c.cancelled ≠ true := by simp [hcancelled]
  cases hstep with
  | stop _ hstopped | stopResting _ hstopped | stopRedialing _ hstopped | abandon _ hstopped =>
    exact absurd hstopped hstop
  | loseForGood _ hreconnect => rw [hends.reconnect] at hreconnect; cases hreconnect
  | ending hp => exact absurd hp (hends.reader _)
  | wake hp _ hwake =>
    exact h.readOn (by rw [hp]; rfl) rfl rfl rfl rfl rfl rfl (fun _ => hwake) (by simp) (by simp)
  | read f hp =>
    have hreading : c.reader.point.isReading = true := by rw [hp]; rfl
    cases f <;> exact h.readOn hreading rfl rfl rfl rfl rfl rfl (by simp [hear])
      (by simp [readFrame]) (by simp [readFrame, Event.isOfSocket])
  | fail hp | finish hp =>
    exact h.readOn (by rw [hp]; rfl) rfl rfl rfl rfl rfl rfl (by simp) (by simp) (by simp)
  | @offer v hp =>
    have hpoints : ∀ topics, (afterOffer topics).isReading = true ∧
        ∀ cause, afterOffer topics ≠ .losing cause := by
      intro topics
      cases topics <;> exact ⟨rfl, fun _ => ReaderPoint.noConfusion⟩
    obtain ⟨hreading, hlosing⟩ := hpoints (Subscriptions.gone (c.offerAll v).2)
    exact h.readOn (by rw [hp]; rfl) hreading rfl rfl rfl rfl rfl
      (fun hw => hw.resolve_right (hlosing _)) (fun hr => absurd hr (hlosing _))
      (by simp [Event.isOfSocket])
  | forget hp | skip hp | answer hp =>
    exact h.readOn (by rw [hp]; rfl) rfl rfl rfl rfl rfl rfl (by simp) (by simp)
      (by simp [Event.isOfSocket])
  | pong sig hp =>
    refine h.readOn (by rw [hp]; rfl) rfl rfl rfl rfl rfl rfl (by simp) (by simp) ?_
    simp only [List.mem_singleton, forall_eq]
    split <;> rfl
  | lose hp => exact h.lose hturn hquiet hp
  | pass hp hmay =>
    exact h.replaceOn rfl rfl (h.retiring hp).1 rfl rfl (h.pings_of_mayTake hturn hquiet hp hmay)
      (by simp)
  | retire hp hmay =>
    exact h.replaceOn rfl rfl (h.retiring hp).1 rfl rfl (h.pings_of_mayTake hturn hquiet hp hmay)
      (by simp [Event.isOfSocket])
  | discard hp | rest hp | redial hp | dialFailed hp =>
    obtain ⟨hnot, hpings⟩ := h.replacing (by rw [hp]; rfl)
    exact h.replaceOn rfl rfl hnot rfl rfl hpings (by simp [Event.isOfSocket])
  | dialed hp => exact h.dialed hp
  | place hp => exact h.place hp
  | reopen hp => exact h.reopen hp

end Redials

theorem EndsByCalls.reader_of_readerStep (h : EndsByCalls c) (hstep : ReaderStep c c' events) :
    ∀ e, c'.reader.point ≠ .ending e := by
  cases hstep with
  | read f => cases f <;> exact fun _ => ReaderPoint.noConfusion
  | @offer v =>
    rw [point_readerAt]
    cases Subscriptions.gone (c.offerAll v).2 <;> exact fun _ => ReaderPoint.noConfusion
  | loseForGood _ hreconnect => rw [h.reconnect] at hreconnect; cases hreconnect
  | ending hp => exact absurd hp (h.reader _)
  | _ => exact fun _ => ReaderPoint.noConfusion

theorem EndsByCalls.heartbeat_of_heartbeatStep (h : EndsByCalls c)
    (hstep : HeartbeatStep c c' events) : ∀ e, c'.heartbeat.point ≠ .ending e := by
  cases hstep with
  | giveUp _ hreconnect => rw [h.reconnect] at hreconnect; cases hreconnect
  | ending hp => exact absurd hp (h.heartbeat _)
  | _ => exact fun _ => HeartbeatPoint.noConfusion

/-- A move that leaves the reader and the heartbeat at their points. -/
theorem EndsByCalls.of_points (h : EndsByCalls c) (hstep : Transition c m c' events)
    (hreader : c'.reader.point = c.reader.point ∨ ∀ e, c'.reader.point ≠ .ending e)
    (hheartbeat : c'.heartbeat.point = c.heartbeat.point ∨ ∀ e, c'.heartbeat.point ≠ .ending e) :
    EndsByCalls c' where
  reconnect := hstep.settings_eq ▸ h.reconnect
  reader := hreader.elim (fun hsame => hsame ▸ h.reader) id
  heartbeat := hheartbeat.elim (fun hsame => hsame ▸ h.heartbeat) id

theorem EndsByCalls.of_transition (h : EndsByCalls c) (hstep : Transition c m c' events) :
    EndsByCalls c' := by
  have hpoints := h.of_points hstep
  cases hstep with
  | @suspend t => cases t <;> exact hpoints (.inl rfl) (.inl rfl)
  | reader hstep =>
    refine hpoints (.inr (h.reader_of_readerStep hstep)) (.inl ?_)
    exact (heartbeat_of_standing? (hstep.standing? Task.noConfusion)).1
  | heartbeat hstep =>
    refine hpoints (.inl ?_) (.inr (h.heartbeat_of_heartbeatStep hstep))
    exact (reader_of_standing? (hstep.standing? Task.noConfusion)).1
  | sending hstep => cases hstep <;> exact hpoints (.inl rfl) (.inl rfl)
  | closing hstep =>
    refine hpoints (.inl ?_) (.inl ?_)
    · exact (reader_of_standing? (hstep.standing? Task.noConfusion)).1
    · exact (heartbeat_of_standing? (hstep.standing? Task.noConfusion)).1
  | reapReader => exact hpoints (.inr fun _ => ReaderPoint.noConfusion) (.inl rfl)
  | reapHeartbeat => exact hpoints (.inl rfl) (.inr fun _ => HeartbeatPoint.noConfusion)
  | dropHandle =>
    obtain ⟨_, _, heq⟩ := abort_frame c.tasks { c with cancelled := true, tasks := [] }
    rw [heq] at hpoints ⊢
    exact hpoints (.inl rfl) (.inl rfl)
  | _ => exact hpoints (.inl rfl) (.inl rfl)

/-- What holds of a stream that dials again, after a history. -/
structure DialsAgain (c : Connection) (history : List Event) : Prop where
  ends : EndsByCalls c
  counted : Counted history
  redials : c.cancelled = false → Redials c history

/-- A task other than the reader lets nobody get before a ping that waits ahead of the reader. -/
theorem InTurn.heartbeat_ahead (h : InTurn c) (hmove : Concerns c c' t) (ht : t ≠ .reader)
    (hheartbeat : t ≠ .heartbeat) (hp : c.reader.point = .retiring)
    (hahead : .heartbeat ∈ c.turn.ahead .reader) : .heartbeat ∈ c'.turn.ahead .reader := by
  have hmem := h.mem_queue_of_quiet (hmove.others .reader ht.symm) (standing?_reader hp) rfl
  exact (h.mem_ahead hmove ht hmem).2 .heartbeat hheartbeat.symm hahead

namespace Redials

variable (h : Redials c history)
include h

theorem suspend (hturn : InTurn c) (hothers : ∀ u, u ≠ t → c.isQuiet u = true) :
    Redials (({ c with turn := if c.awaitsTurn t then c.turn.join t else c.turn }).park t)
      (history ++ []) := by
  have hahead : c.reader.point = .retiring → Task.heartbeat ∈ c.turn.ahead .reader →
      Task.heartbeat ∈ (if c.awaitsTurn t then c.turn.join t else c.turn).ahead .reader := by
    intro hp hahead
    split
    · by_cases ht : t = .reader
      · subst ht
        rw [Turn.ahead_join_self]
        exact hahead
      · rw [Turn.ahead_join_of_mem
          (hturn.mem_queue_of_quiet (hothers .reader (Ne.symm ht)) (standing?_reader hp) rfl)]
        exact hahead
    · exact hahead
  cases t <;> exact h.same rfl rfl rfl rfl rfl rfl rfl hahead (by simp)

/-- While the stream is not cancelled, a call to close changes neither its state nor its write
half. -/
theorem of_closeStep {n : CallId} (hcloses : Closes c) (hcancelled : c.cancelled = false)
    (hcancelled' : c'.cancelled = false)
    (hahead : c.reader.point = .retiring → .heartbeat ∈ c.turn.ahead .reader →
      .heartbeat ∈ c'.turn.ahead .reader)
    (hstep : CloseStep c n c' events) : Redials c' (history ++ events) := by
  have hending : ∀ e, c.closePoint? n ≠ some (.ending e) := by
    intro e hp
    obtain ⟨parked, hs⟩ := standing?_of_closePoint? hp
    cases hcloses.followsCancel_of_not_cancelled hcancelled hs
  cases hstep with
  | cancel => cases hcancelled'
  | ending hp | ended hp => exact absurd hp (hending _)
  | @abort t =>
    cases t <;> exact h.same rfl rfl rfl rfl rfl rfl rfl hahead (by simp [Event.isOfSocket])
  | take | leave | begin | joined | join =>
    exact h.same rfl rfl rfl rfl rfl rfl rfl hahead (by simp [Event.isOfSocket])

theorem of_sendStep {n : CallId}
    (hahead : c.reader.point = .retiring → .heartbeat ∈ c.turn.ahead .reader →
      .heartbeat ∈ c'.turn.ahead .reader)
    (hstep : SendStep c n c' events) : Redials c' (history ++ events) := by
  cases hstep <;> exact h.same rfl rfl rfl rfl rfl rfl rfl hahead (by simp [Event.isOfSocket])

theorem of_transition (hends : EndsByCalls c) (hturn : InTurn c) (hcloses : Closes c)
    (hadmits : c.admits .await m = true) (hcancelled : c.cancelled = false)
    (hcancelled' : c'.cancelled = false) (hstep : Transition c m c' events) :
    Redials c' (history ++ events) := by
  have hmove := hstep.concerns hadmits
  cases hstep with
  | suspend => exact h.suspend hturn hmove.others
  | reader hstep =>
    exact h.of_readerStep hends hturn (hmove.others .heartbeat Task.noConfusion) hcancelled hstep
  | heartbeat hstep => exact h.of_heartbeatStep hends hcancelled hstep
  | sending hstep =>
    exact h.of_sendStep (hturn.heartbeat_ahead hmove Task.noConfusion Task.noConfusion) hstep
  | closing hstep =>
    exact h.of_closeStep hcloses hcancelled hcancelled'
      (hturn.heartbeat_ahead hmove Task.noConfusion Task.noConfusion) hstep
  | reapReader =>
    refine h.stops rfl rfl ?_
    unfold abandoned
    split <;> simp [Event.isOfSocket]
  | reapHeartbeat =>
    exact h.rests rfl rfl rfl rfl rfl rfl (fun hw => Bool.or_eq_true_iff.mpr (.inl hw)) (by simp)
  | dropHandle =>
    obtain ⟨_, _, heq⟩ := abort_frame c.tasks { c with cancelled := true, tasks := [] }
    rw [heq] at hcancelled'
    cases hcancelled'
  | _ => exact h.same rfl rfl rfl rfl rfl rfl rfl (fun _ => id) (by simp [Event.isOfSocket])

end Redials

/-- Whatever the cause of a loss, the socket that is lost has failed. -/
theorem Shown.failed {cause : Loss} (h : Shown c history since)
    (hp : c.reader.point = .losing cause) :
    c.source ∈ failedSockets (history ++ [.lost c.source cause, .entered .reconnecting]) := by
  have hsince : ∀ e ∈ since, e.failed? = some c.source →
      c.source ∈ failedSockets (history ++ [.lost c.source cause, .entered .reconnecting]) :=
    fun e he hfailed => mem_failedSockets.mpr
      ⟨e, List.mem_append_left _ (h.latest.subset he), hfailed⟩
  cases cause with
  | closedByPeer => exact hsince _ (h.closed hp) rfl
  | heartbeat => exact hsince _ (h.asked (.inr hp)) rfl
  | failed | ended =>
    exact mem_failedSockets.mpr ⟨_, List.mem_append_right _ List.mem_cons_self, rfl⟩

theorem Counted.of_readerStep (h : Counted history) (hends : EndsByCalls c)
    (hredials : c.cancelled = false → Redials c history) (hcloses : Closes c)
    (hstep : ReaderStep c c' events) : Counted (history ++ events) := by
  cases hstep with
  | @lose cause hp =>
    have hbefore := hredials (hcloses.losing cause hp)
    have hreading : c.reader.point.isReading = true := by rw [hp]; rfl
    obtain ⟨since, hshown⟩ := hbefore.shown hreading
    exact h.lose (fun hs => Nat.lt_irrefl _ ((hbefore.lost _ hs).2 hreading)) (hshown.failed hp)
  | loseForGood _ hreconnect => rw [hends.reconnect] at hreconnect; cases hreconnect
  | ending hp => exact absurd hp (hends.reader _)
  | read f => cases f <;> exact h.append rfl rfl
  | pong => split <;> exact h.append rfl rfl
  | _ => exact h.append rfl rfl

theorem EndingStep.isOfSocket {e : Ending} {next : Option Ending}
    (h : EndingStep c t e c' next events) : ∀ e ∈ events, e.isOfSocket = false := by
  cases h with
  | say =>
    simp only [List.mem_singleton, forall_eq]
    split <;> rfl
  | _ => simp [Event.isOfSocket]

/-- Only the reader notes new and lost sockets. -/
theorem Transition.isOfSocket (hstep : Transition c m c' events)
    (hm : ∀ sig, m ≠ .step .reader sig) : ∀ e ∈ events, e.isOfSocket = false := by
  cases hstep with
  | reader => exact absurd rfl (hm _)
  | heartbeat hstep =>
    cases hstep with
    | ending _ hending => exact hending.isOfSocket
    | _ => simp [Event.isOfSocket]
  | sending hstep => cases hstep <;> simp [Event.isOfSocket]
  | closing hstep =>
    cases hstep with
    | ending _ hending => exact hending.isOfSocket
    | ended _ hending =>
      intro e he
      rcases List.mem_append.mp he with he | he
      · exact hending.isOfSocket e he
      · cases List.mem_singleton.mp he
        rfl
    | _ => simp [Event.isOfSocket]
  | reapReader =>
    unfold abandoned
    split <;> simp [Event.isOfSocket]
  | _ => simp [Event.isOfSocket]

namespace DialsAgain

variable (h : DialsAgain c history)
include h

theorem of_transition (hturn : InTurn c) (hcloses : Closes c)
    (hadmits : c.admits .await m = true) (hstep : Transition c m c' events) :
    DialsAgain c' (history ++ events) := by
  refine ⟨h.ends.of_transition hstep, ?_, fun hcancelled => ?_⟩
  · by_cases hm : ∃ sig, m = .step .reader sig
    · obtain ⟨sig, rfl⟩ := hm
      cases hstep with
      | suspend => exact h.counted.append rfl rfl
      | reader hstep => exact h.counted.of_readerStep h.ends h.redials hcloses hstep
    · have hevents := hstep.isOfSocket fun sig heq => hm ⟨sig, heq⟩
      exact h.counted.append (lostSockets_eq_nil hevents) (reconnections_eq_zero hevents)
  · have hbefore : c.cancelled = false := by
      rw [← Bool.not_eq_true]
      intro hc
      rw [hstep.cancelled_mono hc] at hcancelled
      cases hcancelled
    exact (h.redials hbefore).of_transition h.ends hturn hcloses hadmits hbefore hcancelled hstep

end DialsAgain

theorem dialsAgain_opened (address : String) (settings : StreamSettings) (began now : Instant)
    (epoch : Int) (hreconnect : settings.reconnect = true) :
    DialsAgain (opened address settings now epoch)
      ((opened address settings now epoch).opening began) := by
  have hheartbeat : (∀ e, (opened address settings now epoch).heartbeat.point ≠ .ending e) ∧
      (opened address settings now epoch).heartbeat.point.pings = false ∧
      (opened address settings now epoch).asksToRedial = false := by
    unfold asksToRedial opened
    cases settings.pingInterval? <;> exact ⟨fun _ => HeartbeatPoint.noConfusion, rfl, rfl⟩
  obtain ⟨hending, hpings, hasks⟩ := hheartbeat
  generalize hc : opened address settings now epoch = c at *
  have hreader : c.reader.point = .selecting := by rw [← hc]; rfl
  have hlatest : Latest (c.opening began) 0 [.heard c.wall, .entered .opened] :=
    ⟨⟨[.entered .connecting, .dialStarted began, .dialEnded c.now true], rfl, rfl⟩, rfl, by simp⟩
  have hsource : c.source = 0 := by rw [← hc]; rfl
  have hshown : Shown c (c.opening began) [.heard c.wall, .entered .opened] := by
    refine ⟨hsource ▸ hlatest, ?_, ?_⟩
    · rw [hasks, hreader]
      simp
    · rw [hreader]
      simp
  refine ⟨⟨by rw [← hc]; exact hreconnect, by simp [hreader], hending⟩,
    ⟨rfl, List.nodup_nil, fun _ hs => by cases hs⟩, fun _ => ?_⟩
  refine ⟨fun _ => ⟨by rw [← hc]; rfl, by rw [← hc]; rfl, fun s since next hping => ?_⟩,
    fun _ => ⟨_, hshown⟩, by simp [hreader], by simp [hreader, ReaderPoint.isReplacing],
    by simp [hreader], by rw [← hc]; rfl, by rw [← hc]; exact Nat.zero_lt_one,
    by simp [hreader, ReaderPoint.incoming?], fun s hs => by cases hs⟩
  rw [hping] at hpings
  cases hpings

/-- In every run of a stream that dials again, what holds of its sockets. -/
theorem Run.dialsAgain {address : String} {settings : StreamSettings} {began now : Instant}
    {epoch : Int} (hrun : Run .await address settings began now epoch c history)
    (hreconnect : settings.reconnect = true) : DialsAgain c history := by
  have hturn := inTurn_opened address settings now epoch
  have hcloses := closes_opened address settings now epoch
  obtain ⟨-, hreaches⟩ := hrun
  induction hreaches with
  | refl => exact dialsAgain_opened address settings began now epoch hreconnect
  | move hbefore hadmits hnext ih =>
    exact ih.of_transition (hbefore.inTurn hturn) (hbefore.closes hturn hcloses) hadmits
      (.of_next? hnext)

/-- How a run shows that the socket that the reader gives up has failed: since its write half was
put in place a close frame was read from it or a ping to it has failed, or the last that the reader
was told is that reading it had failed or ended. -/
inductive GivenUp (run : Connection → List Event → Prop) (c : Connection)
    (history since : List Event) : Loss → Prop where
  | closedByPeer : .read c.source .close ∈ since → GivenUp run c history since .closedByPeer
  | failed {before : Connection} : run before history → before.source = c.source →
      before.next? (.step .reader .readFailed) = some (c, []) →
      GivenUp run c history since .failed
  | ended {before : Connection} : run before history → before.source = c.source →
      before.next? (.step .reader .readEnded) = some (c, []) → GivenUp run c history since .ended
  | heartbeat : .pingFailed (some c.source) ∈ since → GivenUp run c history since .heartbeat

/-- The reader comes to give up a socket from where it awaits what comes first. -/
theorem ReaderStep.selecting_of_losing {cause : Loss} (h : ReaderStep c c' events)
    (hp : c'.reader.point = .losing cause) : c.reader.point = .selecting := by
  cases h with
  | stop hsel | wake hsel | read _ hsel | fail hsel | finish hsel => exact hsel
  | @offer v =>
    rw [point_readerAt] at hp
    cases hgone : Subscriptions.gone (c.offerAll v).2 <;> rw [hgone] at hp <;> cases hp
  | @ending e d next => cases next <;> cases hp
  | _ => cases hp

/-- What the reader is told when it comes to give up a socket that it cannot read. -/
theorem signal_of_losing {cause : Loss} (h : c.readerStep sig = some (c', events))
    (hp : c'.reader.point = .losing cause) :
    c'.source = c.source ∧ (cause = .failed → sig = .readFailed ∧ events = []) ∧
      (cause = .ended → sig = .readEnded ∧ events = []) := by
  have hsel := (ReaderStep.of_readerStep h).selecting_of_losing hp
  cases sig with
  | go =>
    simp only [readerStep, hsel] at h
    split at h
    · cases h; cases hp
    · split at h
      · cases h; cases hp; simp [Connection.readerAt]
      · cases h
  | frame f =>
    simp only [readerStep, hsel] at h
    split at h
    · cases h
    · cases f with
      | close => cases h; cases hp; simp [Connection.readerAt]
      | data | ping | pong => cases h; cases hp
  | readFailed | readEnded =>
    simp only [readerStep, hsel] at h
    split at h
    · cases h
    · cases h; cases hp; simp [Connection.readerAt]
  | _ => simp only [readerStep, hsel] at h; cases h

theorem readerStep_of_step? (h : c.step? .reader sig = some (c', events)) (hsig : sig ≠ .suspend) :
    c.readerStep sig = some (c', events) := by
  unfold step? at h
  split at h
  · cases h
  · cases sig <;> first | exact h | exact absurd rfl hsig

/-- A run comes to a reader that gives up its socket by a step of the reader. -/
theorem Run.readerStep_of_losing {address : String} {settings : StreamSettings}
    {began now : Instant} {epoch : Int} {cause : Loss}
    (hrun : Run .await address settings began now epoch c history)
    (hp : c.reader.point = .losing cause) :
    ∃ before past sig events, Run .await address settings began now epoch before past ∧
      before.next? (.step .reader sig) = some (c, events) ∧
      before.readerStep sig = some (c, events) ∧ history = past ++ events := by
  obtain ⟨hbegan, hreaches⟩ := hrun
  cases hreaches with
  | refl => cases hp
  | @move before _ past events m hbefore hadmits hnext =>
    have hturn := hbefore.inTurn (inTurn_opened address settings now epoch)
    have hstep := Transition.of_next? hnext
    have hmove := hstep.concerns hadmits
    have hbusy : before.reader.point = .losing cause → before.isQuiet .reader ≠ true :=
      fun hpoint hquiet => hturn.not_losing_of_quiet hquiet cause hpoint
    by_cases ht : before.concerned m = .reader
    · rw [ht] at hmove
      cases hstep with
      | @suspend t hwaits =>
        cases ht
        have hpoint : before.reader.point = .losing cause := hp
        simp only [waits, hpoint] at hwaits
        cases hwaits
      | @reader sig c' events hstep =>
        have hsuspend : sig ≠ .suspend := by
          rintro rfl
          have hsel := hstep.selecting_of_losing hp
          simp only [next?, step?] at hnext
          split at hnext
          · cases hnext
          · obtain ⟨d, hd, heq⟩ := Option.map_eq_some_iff.mp hnext
            cases heq
            unfold suspend? at hd
            split at hd <;> cases hd
            cases hsel.symm.trans hp
        exact ⟨before, past, sig, events, ⟨hbegan, hbefore⟩, hnext,
          readerStep_of_step? hnext hsuspend, rfl⟩
      | heartbeat | sending | closing | reapHeartbeat | send | close => cases ht
      | reapReader => cases hp
      | subscribe | refuse | unsubscribe | receive | dropReceiver | elapse =>
        exact absurd (quiet_of_isSettled hadmits) (hbusy hp)
      | dropHandle =>
        obtain ⟨_, _, heq⟩ :=
          abort_frame before.tasks { before with cancelled := true, tasks := [] }
        rw [heq] at hp
        exact absurd (quiet_of_isSettled hadmits) (hbusy hp)
    · obtain ⟨hpoint, -⟩ := reader_of_standing? (hmove.frame .reader (Ne.symm ht))
      exact absurd (hmove.others .reader (Ne.symm ht)) (hbusy (hpoint ▸ hp))

/-- A move takes a stream to dialing again only by giving up a socket. -/
theorem Transition.lose_of_reconnecting (hstep : Transition c m c' events)
    (hnow : c'.state = .reconnecting) (hbefore : c.state ≠ .reconnecting) :
    ∃ cause, c.reader.point = .losing cause ∧
      events = [.lost c.source cause, .entered .reconnecting] := by
  have hending : ∀ {t e d next events}, EndingStep c t e d next events →
      d.state = .reconnecting → False := by
    intro t e d next events hending hnow
    cases hending with
    | mark | finish => cases hnow
    | _ => exact hbefore hnow
  cases hstep with
  | @suspend t => cases t <;> exact absurd hnow hbefore
  | reader hstep =>
    cases hstep with
    | @lose cause hp => exact ⟨cause, hp, rfl⟩
    | read f => cases f <;> exact absurd hnow hbefore
    | reopen => cases hnow
    | ending _ hstep => exact (hending hstep hnow).elim
    | _ => exact absurd hnow hbefore
  | heartbeat hstep =>
    cases hstep with
    | ending _ hstep => exact (hending hstep hnow).elim
    | _ => exact absurd hnow hbefore
  | sending hstep => cases hstep <;> exact absurd hnow hbefore
  | closing hstep =>
    cases hstep with
    | @abort t => cases t <;> exact absurd hnow hbefore
    | ending _ hstep | ended _ hstep => exact (hending hstep hnow).elim
    | _ => exact absurd hnow hbefore
  | dropHandle =>
    obtain ⟨_, _, heq⟩ := abort_frame c.tasks { c with cancelled := true, tasks := [] }
    rw [heq] at hnow
    exact absurd hnow hbefore
  | _ => exact absurd hnow hbefore

/-- A stream that dials again comes to do so from an open socket only, which is that of the latest
dial that succeeded, and only because this very socket has failed: it was closed by the far end,
could not be read or had ended, or a ping to it has failed since its write half was put in place. So
a stream begins to dial again at most once for each socket that has failed. -/
theorem Run.reconnecting_of_failure {address : String} {settings : StreamSettings}
    {began now : Instant} {epoch : Int}
    (hrun : Run .await address settings began now epoch c history)
    (hreconnect : settings.reconnect = true) :
    (∀ m c' events, c.next? m = some (c', events) → c'.state = .reconnecting →
      c.state ≠ .reconnecting →
        c.state = .opened ∧ ∃ cause since,
          events = [.lost c.source cause, .entered .reconnecting] ∧
          Latest history c.source since ∧
          GivenUp (Run .await address settings began now epoch) c history since cause) ∧
    reconnections history ≤ (failedSockets history).card := by
  have hdials := hrun.dialsAgain hreconnect
  have hcloses := hrun.2.closes (inTurn_opened address settings now epoch)
    (closes_opened address settings now epoch)
  refine ⟨fun m c' events hnext hnow hbefore => ?_, hdials.counted.le_card⟩
  obtain ⟨cause, hp, rfl⟩ := (Transition.of_next? hnext).lose_of_reconnecting hnow hbefore
  have hredials := hdials.redials (hcloses.losing cause hp)
  have hreading : c.reader.point.isReading = true := by rw [hp]; rfl
  obtain ⟨since, hshown⟩ := hredials.shown hreading
  refine ⟨(hredials.reading hreading).1, cause, since, rfl, hshown.latest, ?_⟩
  obtain ⟨before, past, sig, noted, hpast, htold, hstep, rfl⟩ := hrun.readerStep_of_losing hp
  obtain ⟨hsource, hfailed, hended⟩ := signal_of_losing hstep hp
  cases cause with
  | closedByPeer => exact .closedByPeer (hshown.closed hp)
  | heartbeat => exact .heartbeat (hshown.asked (.inr hp))
  | failed =>
    obtain ⟨rfl, rfl⟩ := hfailed rfl
    rw [List.append_nil]
    exact .failed hpast hsource.symm htold
  | ended =>
    obtain ⟨rfl, rfl⟩ := hended rfl
    rw [List.append_nil]
    exact .ended hpast hsource.symm htold

/-- A ping fails while the stream is open, and the reader hears of it. -/
def failedPingMoves : List Move :=
  [.elapse 1000000000, .step .heartbeat .go, .step .heartbeat .go, .step .heartbeat .go,
    .step .heartbeat .writeFailed, .step .heartbeat .go, .step .heartbeat .suspend,
    .step .reader .go]

/-- After a ping has failed, the stream gives up its first socket because of that ping. -/
theorem reconnecting_after_failed_ping : ∃ c c' history events,
    Run .await "ws://host/" { pingIntervalMs := 1000 } 0 0 0 c history ∧
      c.next? (.step .reader .go) = some (c', events) ∧ c'.state = .reconnecting ∧
      c.state = .opened ∧ reconnections history ≤ (failedSockets history).card ∧
      ∃ cause since, events = [.lost 0 cause, .entered .reconnecting] ∧
        Latest history 0 since := by
  have hrun : Run .await "ws://host/" { pingIntervalMs := 1000 } 0 0 0 _ _ :=
    ⟨Nat.le_refl 0, Reaches.of_follow? failedPingMoves .refl rfl⟩
  obtain ⟨hgiven, hcount⟩ := hrun.reconnecting_of_failure rfl
  obtain ⟨hopened, cause, since, hevents, hlatest, -⟩ :=
    hgiven (.step .reader .go) _ _ rfl rfl State.noConfusion
  exact ⟨_, _, _, _, hrun, rfl, rfl, hopened, hcount, cause, since, hevents, hlatest⟩

end Connection

end Uplink.Stream
