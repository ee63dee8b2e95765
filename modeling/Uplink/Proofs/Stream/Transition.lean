import Uplink.Stream.Run

/-! What a step of a stream can be. Each task's step is one of a few transitions from its point, and
each move is a step of a task or a change of its own; all that is proved of runs is proved of these
transitions. -/

namespace Uplink.Stream.Connection

variable {c c' : Connection} {t : Task} {n : CallId} {sig : Signal} {e : Ending}
  {next : Option Ending} {events : List Event} {m : Move}

@[simp] theorem point_readerAt (p : ReaderPoint) : (c.readerAt p).reader.point = p := rfl

@[simp] theorem parked_readerAt (p : ReaderPoint) : (c.readerAt p).reader.parked = false := rfl

/-- The transitions of a task that ends the stream. -/
inductive EndingStep (c : Connection) (t : Task) :
    Ending → Connection → Option Ending → List Event → Prop where
  | alreadyClosed : c.state = .closed → EndingStep c t .checking c none []
  | begin : c.state ≠ .closed → EndingStep c t .checking c (some .marking) []
  | mark : EndingStep c t .marking (c.setState .closing) (some .cancelling) [.entered .closing]
  | cancel : EndingStep c t .cancelling { c with cancelled := true } (some .clearing) [.cancelled]
  | clear : EndingStep c t .clearing { c with subscriptions := c.subscriptions.clear }
      (some .waiting) [.cleared]
  | pass : c.turn.mayTake t = true → c.sink = none →
      EndingStep c t .waiting { c with turn := (c.turn.take t).leave t } (some .finishing) []
  | withdraw {s : SocketId} : c.turn.mayTake t = true → c.sink = some s →
      EndingStep c t .waiting { c with turn := c.turn.take t, sink := none }
        (some (.saying s c.now)) [.withdrawn s]
  | say {s : SocketId} {since : Instant} (sig : Signal) : c.writeEnds since sig = true →
      EndingStep c t (.saying s since) c (some (.shutting s c.now))
        [if sig = .written then .wrote s .close else .writeFailed s .close]
  | shut {s : SocketId} {since : Instant} :
      EndingStep c t (.shutting s since) { c with turn := c.turn.leave t } (some .finishing) []
  | finish : EndingStep c t .finishing (c.setState .closed) none [.entered .closed]

theorem EndingStep.of_endingStep (h : c.endingStep t e sig = some (c', next, events)) :
    EndingStep c t e c' next events := by
  unfold endingStep at h
  split at h
  · split at h <;> simp only [Option.some.injEq, Prod.mk.injEq] at h <;> obtain ⟨rfl, rfl, rfl⟩ := h
    · exact .alreadyClosed ‹_›
    · exact .begin ‹_›
  · simp only [Option.some.injEq, Prod.mk.injEq] at h
    obtain ⟨rfl, rfl, rfl⟩ := h
    exact .mark
  · simp only [Option.some.injEq, Prod.mk.injEq] at h
    obtain ⟨rfl, rfl, rfl⟩ := h
    exact .cancel
  · simp only [Option.some.injEq, Prod.mk.injEq] at h
    obtain ⟨rfl, rfl, rfl⟩ := h
    exact .clear
  · split at h
    · split at h <;> simp only [Option.some.injEq, Prod.mk.injEq] at h <;>
        obtain ⟨rfl, rfl, rfl⟩ := h
      · exact .pass ‹_› ‹_›
      · exact .withdraw ‹_› ‹_›
    · cases h
  · split at h
    · simp only [Option.some.injEq, Prod.mk.injEq] at h
      obtain ⟨rfl, rfl, rfl⟩ := h
      exact .say _ ‹_›
    · cases h
  · split at h
    · simp only [Option.some.injEq, Prod.mk.injEq] at h
      obtain ⟨rfl, rfl, rfl⟩ := h
      exact .shut
    · cases h
  · simp only [Option.some.injEq, Prod.mk.injEq] at h
    obtain ⟨rfl, rfl, rfl⟩ := h
    exact .finish
  · cases h

/-- Ending a stream changes nothing but its state, its cancellation, its subscriptions and what
concerns the write half. -/
theorem EndingStep.frame (h : EndingStep c t e c' next events) :
    ∃ state cancelled subscriptions sink turn,
      c' = { c with state, cancelled, subscriptions, sink, turn } := by
  cases h <;> exact ⟨_, _, _, _, _, rfl⟩

/-- To mark tasks to be aborted changes nothing but the marks. -/
theorem abort_frame (tasks : List Task) (c : Connection) : ∃ reader heartbeat,
    tasks.foldl abort c = { c with
      reader := { c.reader with aborted := reader }
      heartbeat := { c.heartbeat with aborted := heartbeat } } := by
  induction tasks generalizing c with
  | nil => exact ⟨_, _, rfl⟩
  | cons t rest ih =>
    obtain ⟨reader, heartbeat, h⟩ := ih (c.abort t)
    refine ⟨reader, heartbeat, ?_⟩
    rw [List.foldl_cons, h]
    cases t <;> rfl

/-- The reader's point after an offer that found some topics without receivers. -/
def afterOffer : List String → ReaderPoint
  | [] => .selecting
  | topics => .forgetting topics

/-- The transitions of the reader. -/
inductive ReaderStep (c : Connection) : Connection → List Event → Prop where
  | stop : c.reader.point = .selecting → c.cancelled = true →
      ReaderStep c (c.readerAt .finished) []
  | wake : c.reader.point = .selecting → c.cancelled = false → c.wake = true →
      ReaderStep c (({ c with wake := false }).readerAt (.losing .heartbeat)) []
  | read (f : Inbound) : c.reader.point = .selecting → c.cancelled = false → c.wake = false →
      ReaderStep c (c.readFrame f).1 (c.readFrame f).2
  | fail : c.reader.point = .selecting → c.cancelled = false → c.wake = false →
      ReaderStep c (c.readerAt (.losing .failed)) []
  | finish : c.reader.point = .selecting → c.cancelled = false → c.wake = false →
      ReaderStep c (c.readerAt (.losing .ended)) []
  | offer {v : Variant} : c.reader.point = .offering v →
      ReaderStep c ((c.offerAll v).1.readerAt (afterOffer (Subscriptions.gone (c.offerAll v).2)))
        [.offered v (c.offerAll v).2]
  | forget {topics : List String} : c.reader.point = .forgetting topics →
      ReaderStep c (({ c with subscriptions := c.subscriptions.forgetAll topics }).readerAt
        .selecting) [.forgot topics]
  | skip {p : List UInt8} : c.reader.point = .answering p → c.turn.mayTake .reader = true →
      c.sink = none →
      ReaderStep c (({ c with turn := (c.turn.take .reader).leave .reader }).readerAt .selecting) []
  | answer {p : List UInt8} {s : SocketId} : c.reader.point = .answering p →
      c.turn.mayTake .reader = true → c.sink = some s →
      ReaderStep c (({ c with turn := c.turn.take .reader }).readerAt (.ponging s p c.now)) []
  | pong {s : SocketId} {p : List UInt8} {since : Instant} (sig : Signal) :
      c.reader.point = .ponging s p since → c.writeEnds since sig = true →
      ReaderStep c (({ c with turn := c.turn.leave .reader }).readerAt .selecting)
        [if sig = .written then .wrote s (.pong p) else .writeFailed s (.pong p)]
  | lose {cause : Loss} : c.reader.point = .losing cause → c.settings.reconnect = true →
      ReaderStep c ((c.setState .reconnecting).readerAt .retiring)
        [.lost c.source cause, .entered .reconnecting]
  | loseForGood {cause : Loss} : c.reader.point = .losing cause → c.settings.reconnect = false →
      ReaderStep c (c.readerAt (.ending .checking)) [.lost c.source cause]
  | pass : c.reader.point = .retiring → c.turn.mayTake .reader = true → c.sink = none →
      ReaderStep c (({ c with turn := (c.turn.take .reader).leave .reader }).readerAt
        (.resting (c.now + c.reconnectDelay))) []
  | retire {s : SocketId} : c.reader.point = .retiring → c.turn.mayTake .reader = true →
      c.sink = some s →
      ReaderStep c (({ c with turn := c.turn.take .reader, sink := none }).readerAt
        (.discarding s c.now)) [.withdrawn s]
  | discard {s : SocketId} {since : Instant} : c.reader.point = .discarding s since →
      ReaderStep c (({ c with turn := c.turn.leave .reader }).readerAt
        (.resting (c.now + c.reconnectDelay))) []
  | stopResting {due : Instant} : c.reader.point = .resting due → c.cancelled = true →
      ReaderStep c (c.readerAt .finished) []
  | rest {due : Instant} : c.reader.point = .resting due → c.cancelled = false → due ≤ c.now →
      ReaderStep c (c.readerAt .redialing) []
  | stopRedialing : c.reader.point = .redialing → c.cancelled = true →
      ReaderStep c (c.readerAt .finished) []
  | redial : c.reader.point = .redialing → c.cancelled = false →
      ReaderStep c (c.readerAt (.dialing c.now)) [.dialStarted c.now]
  | abandon {since : Instant} : c.reader.point = .dialing since → c.cancelled = true →
      ReaderStep c (c.readerAt .finished) [.dialAbandoned c.now]
  | dialed {since : Instant} : c.reader.point = .dialing since → c.cancelled = false →
      ReaderStep c (({ c with sockets := c.sockets + 1 }).readerAt (.placing c.sockets))
        [.dialEnded c.now true]
  | dialFailed {since : Instant} : c.reader.point = .dialing since → c.cancelled = false →
      ReaderStep c (({ c with counters :=
          { c.counters with failedDials := c.counters.failedDials + 1 } }).readerAt
        (.resting (c.now + c.reconnectDelay))) [.dialEnded c.now false]
  | place {s : SocketId} : c.reader.point = .placing s → c.turn.mayTake .reader = true →
      ReaderStep c
        (({ c with sink := some s, turn := (c.turn.take .reader).leave .reader }).readerAt
          (.opening s)) [.installed s]
  | reopen {s : SocketId} : c.reader.point = .opening s →
      ReaderStep c ((c.reopen s).readerAt .selecting) [.heard c.wall, .entered .opened]
  | ending {e : Ending} {c' : Connection} {next : Option Ending} {events : List Event} :
      c.reader.point = .ending e → EndingStep c .reader e c' next events →
      ReaderStep c (c'.readerAt ((next.map .ending).getD .finished)) events

theorem ReaderStep.of_readerStep (h : c.readerStep sig = some (c', events)) :
    ReaderStep c c' events := by
  unfold readerStep at h
  split at h
  · split at h
    · cases h; exact .stop ‹_› ‹_›
    · split at h
      · cases h; exact .wake ‹_› (by simpa using ‹¬c.cancelled = true›) ‹_›
      · cases h
  · next f _ =>
    split at h
    · cases h
    · next hstill =>
      obtain ⟨hcancelled, hwake⟩ : c.cancelled = false ∧ c.wake = false := by simpa using hstill
      obtain ⟨rfl, rfl⟩ : (c.readFrame f).1 = c' ∧ (c.readFrame f).2 = events :=
        Prod.ext_iff.mp (Option.some.inj h)
      exact .read f ‹_› hcancelled hwake
  · split at h
    · cases h
    · next hstill =>
      obtain ⟨hcancelled, hwake⟩ : c.cancelled = false ∧ c.wake = false := by simpa using hstill
      cases h
      exact .fail ‹_› hcancelled hwake
  · split at h
    · cases h
    · next hstill =>
      obtain ⟨hcancelled, hwake⟩ : c.cancelled = false ∧ c.wake = false := by simpa using hstill
      cases h
      exact .finish ‹_› hcancelled hwake
  · next v _ =>
    have hstep := ReaderStep.offer ‹c.reader.point = .offering v›
    generalize c.offerAll v = offered at h hstep
    obtain ⟨c₁, offers⟩ := offered
    dsimp only at h hstep
    split at h
    · next hgone => cases h; rw [hgone] at hstep; exact hstep
    · next hne =>
      cases h
      cases hgone : Subscriptions.gone offers with
      | nil => exact absurd hgone hne
      | cons topic topics => rw [hgone] at hstep; exact hstep
  · cases h; exact .forget ‹_›
  · split at h
    · split at h <;> cases h
      · exact .skip ‹_› ‹_› ‹_›
      · exact .answer ‹_› ‹_› ‹_›
    · cases h
  · split at h
    · cases h; exact .pong _ ‹_› ‹_›
    · cases h
  · split at h <;> cases h
    · exact .lose ‹_› ‹_›
    · exact .loseForGood ‹_› (by simpa using ‹¬c.settings.reconnect = true›)
  · split at h
    · split at h <;> cases h
      · exact .pass ‹_› ‹_› ‹_›
      · exact .retire ‹_› ‹_› ‹_›
    · cases h
  · split at h
    · cases h; exact .discard ‹_›
    · cases h
  · split at h
    · cases h; exact .stopResting ‹_› ‹_›
    · split at h
      · cases h; exact .rest ‹_› (by simpa using ‹¬c.cancelled = true›) ‹_›
      · cases h
  · split at h <;> cases h
    · exact .stopRedialing ‹_› ‹_›
    · exact .redial ‹_› (by simpa using ‹¬c.cancelled = true›)
  · split at h <;> cases h
    exact .abandon ‹_› ‹_›
  · split at h <;> cases h
    exact .dialed ‹_› (by simpa using ‹¬c.cancelled = true›)
  · split at h <;> cases h
    exact .dialFailed ‹_› (by simpa using ‹¬c.cancelled = true›)
  · split at h <;> cases h
    exact .place ‹_› ‹_›
  · cases h; exact .reopen ‹_›
  · next e _ =>
    obtain ⟨⟨c₁, next, events₁⟩, hending, heq⟩ := Option.map_eq_some_iff.mp h
    cases heq
    exact .ending ‹_› (.of_endingStep hending)
  · cases h

/-- The transitions of the heartbeat. -/
inductive HeartbeatStep (c : Connection) : Connection → List Event → Prop where
  | stop {due : Instant} : c.heartbeat.point = .ticking due → c.cancelled = true →
      HeartbeatStep c (c.heartbeatAt .finished) []
  | tick {due : Instant} : c.heartbeat.point = .ticking due → c.cancelled = false → due ≤ c.now →
      HeartbeatStep c (c.heartbeatAt (.checking (c.tickAfter due))) []
  | ready {next : Instant} : c.heartbeat.point = .checking next → c.state = .opened →
      HeartbeatStep c (c.heartbeatAt (.waiting next)) []
  | skip {next : Instant} : c.heartbeat.point = .checking next → c.state ≠ .opened →
      HeartbeatStep c (c.heartbeatAt (.ticking next)) []
  | miss {next : Instant} : c.heartbeat.point = .waiting next →
      c.turn.mayTake .heartbeat = true → c.sink = none →
      HeartbeatStep c (({ c with turn := (c.turn.take .heartbeat).leave .heartbeat }).heartbeatAt
        (.failing next)) [.pingFailed none]
  | ping {next : Instant} {s : SocketId} : c.heartbeat.point = .waiting next →
      c.turn.mayTake .heartbeat = true → c.sink = some s →
      HeartbeatStep c (({ c with turn := c.turn.take .heartbeat }).heartbeatAt
        (.pinging s c.now next)) []
  | pinged {s : SocketId} {since next : Instant} : c.heartbeat.point = .pinging s since next →
      HeartbeatStep c (({ c with turn := c.turn.leave .heartbeat }).heartbeatAt (.ticking next))
        [.wrote s .ping]
  | pingFailed {s : SocketId} {since next : Instant} : c.heartbeat.point = .pinging s since next →
      HeartbeatStep c (({ c with turn := c.turn.leave .heartbeat }).heartbeatAt (.failing next))
        [.writeFailed s .ping, .pingFailed (some s)]
  | wake {next : Instant} : c.heartbeat.point = .failing next → c.settings.reconnect = true →
      HeartbeatStep c (({ c with wake := true }).heartbeatAt (.ticking next)) []
  | giveUp {next : Instant} : c.heartbeat.point = .failing next → c.settings.reconnect = false →
      HeartbeatStep c (c.heartbeatAt (.ending .checking)) []
  | ending {e : Ending} {c' : Connection} {next : Option Ending} {events : List Event} :
      c.heartbeat.point = .ending e → EndingStep c .heartbeat e c' next events →
      HeartbeatStep c (c'.heartbeatAt ((next.map .ending).getD .finished)) events

theorem HeartbeatStep.of_heartbeatStep (h : c.heartbeatStep sig = some (c', events)) :
    HeartbeatStep c c' events := by
  unfold heartbeatStep at h
  split at h
  · split at h
    · cases h; exact .stop ‹_› ‹_›
    · split at h
      · cases h; exact .tick ‹_› (by simpa using ‹¬c.cancelled = true›) ‹_›
      · cases h
  · cases h
    split
    · exact .ready ‹_› ‹_›
    · exact .skip ‹_› ‹_›
  · split at h
    · split at h <;> cases h
      · exact .miss ‹_› ‹_› ‹_›
      · exact .ping ‹_› ‹_› ‹_›
    · cases h
  · split at h
    · simp only at h
      split at h <;> cases h
      · exact .pinged ‹_›
      · exact .pingFailed ‹_›
    · cases h
  · split at h <;> cases h
    · exact .wake ‹_› ‹_›
    · exact .giveUp ‹_› (by simpa using ‹¬c.settings.reconnect = true›)
  · obtain ⟨⟨c₁, next, events₁⟩, hending, heq⟩ := Option.map_eq_some_iff.mp h
    cases heq
    exact .ending ‹_› (.of_endingStep hending)
  · cases h

/-- The transitions of a call to send. -/
inductive SendStep (c : Connection) (n : CallId) : Connection → List Event → Prop where
  | accept {m : Message} : c.sendPoint? n = some (.checking m) → c.isLive = true →
      SendStep c n (c.sendAt n (.waiting m)) []
  | refuse {m : Message} : c.sendPoint? n = some (.checking m) → c.isLive = false →
      SendStep c n (c.sendAt n (.returned .notFound)) [.sendReturned n .notFound]
  | miss {m : Message} : c.sendPoint? n = some (.waiting m) → c.turn.mayTake (.send n) = true →
      c.sink = none →
      SendStep c n (({ c with turn := (c.turn.take (.send n)).leave (.send n) }).sendAt n
        (.returned .notConnected)) [.sendReturned n .notConnected]
  | write {m : Message} {s : SocketId} : c.sendPoint? n = some (.waiting m) →
      c.turn.mayTake (.send n) = true → c.sink = some s →
      SendStep c n (({ c with turn := c.turn.take (.send n) }).sendAt n (.writing m s c.now)) []
  | sent {m : Message} {s : SocketId} {since : Instant} :
      c.sendPoint? n = some (.writing m s since) →
      SendStep c n (({ c with
          turn := c.turn.leave (.send n)
          counters := { c.counters with sent := c.counters.sent + 1 } }).sendAt n (.returned .sent))
        [.wrote s (.data m), .sendReturned n .sent]
  | fail {m : Message} {s : SocketId} {since : Instant} {result : SendResult} :
      c.sendPoint? n = some (.writing m s since) → result = .timedOut ∨ result = .failed →
      SendStep c n (({ c with turn := c.turn.leave (.send n) }).sendAt n (.returned result))
        [.writeFailed s (.data m), .sendReturned n result]

theorem SendStep.of_sendStep (h : c.sendStep n sig = some (c', events)) :
    SendStep c n c' events := by
  unfold sendStep at h
  split at h
  · split at h <;> cases h
    · exact .accept ‹_› ‹_›
    · exact .refuse ‹_› (by simpa using ‹¬c.isLive = true›)
  · split at h
    · split at h <;> cases h
      · exact .miss ‹_› ‹_› ‹_›
      · exact .write ‹_› ‹_› ‹_›
    · cases h
  · split at h
    · simp only at h
      split at h <;> cases h
      · exact .sent ‹_›
      · exact .fail ‹_› (by split <;> simp)
    · cases h
  · cases h

/-- The transitions of a call to close. -/
inductive CloseStep (c : Connection) (n : CallId) : Connection → List Event → Prop where
  | take : c.closePoint? n = some .taking →
      CloseStep c n (({ c with tasks := [] }).closeAt n (.looking c.tasks)) []
  | leave : c.closePoint? n = some (.looking []) → c.state = .closed →
      CloseStep c n (c.closeAt n .returned) [.closeReturned n]
  | begin {tasks : List Task} : c.closePoint? n = some (.looking tasks) →
      ¬(tasks = [] ∧ c.state = .closed) → CloseStep c n (c.closeAt n (.cancelling tasks)) []
  | cancel {tasks : List Task} : c.closePoint? n = some (.cancelling tasks) →
      CloseStep c n (({ c with cancelled := true }).closeAt n (.joining tasks c.now)) [.cancelled]
  | joined {since : Instant} : c.closePoint? n = some (.joining [] since) →
      CloseStep c n (c.closeAt n (.ending .checking)) []
  | join {t : Task} {rest : List Task} {since : Instant} :
      c.closePoint? n = some (.joining (t :: rest) since) → c.hasFinished t = true →
      CloseStep c n (c.closeAt n (.joining rest c.now)) []
  | abort {t : Task} {rest : List Task} {since : Instant} :
      c.closePoint? n = some (.joining (t :: rest) since) → since + c.writeTimeout ≤ c.now →
      CloseStep c n ((c.abort t).closeAt n (.joining rest c.now)) [.aborted t]
  | ending {e e' : Ending} {c' : Connection} {events : List Event} :
      c.closePoint? n = some (.ending e) → EndingStep c (.close n) e c' (some e') events →
      CloseStep c n (c'.closeAt n (.ending e')) events
  | ended {e : Ending} {c' : Connection} {events : List Event} :
      c.closePoint? n = some (.ending e) → EndingStep c (.close n) e c' none events →
      CloseStep c n (c'.closeAt n .returned) (events ++ [.closeReturned n])

theorem CloseStep.of_closeStep (h : c.closeStep n sig = some (c', events)) :
    CloseStep c n c' events := by
  unfold closeStep at h
  split at h
  · cases h; exact .take ‹_›
  · split at h <;> cases h
    · next hdone =>
      obtain ⟨rfl, hclosed⟩ := hdone
      exact .leave ‹_› hclosed
    · exact .begin ‹_› ‹_›
  · cases h; exact .cancel ‹_›
  · cases h; exact .joined ‹_›
  · split at h <;> cases h
    exact .join ‹_› ‹_›
  · split at h <;> cases h
    exact .abort ‹_› ‹_›
  · obtain ⟨⟨c₁, next, events₁⟩, hending, heq⟩ := Option.map_eq_some_iff.mp h
    have hstep := EndingStep.of_endingStep hending
    cases next with
    | none => cases heq; exact .ended ‹_› hstep
    | some e' => cases heq; exact .ending ‹_› hstep
  · cases h

/-- What the end of an aborted reader gives up. -/
def abandoned (c : Connection) : List Event :=
  match c.reader.point with
  | .dialing _ => [.dialAbandoned c.now]
  | _ => []

/-- The transitions of a stream, by the moves that make them. -/
inductive Transition (c : Connection) : Move → Connection → List Event → Prop where
  | suspend {t : Task} : c.waits t = true →
      Transition c (.step t .suspend)
        (({ c with turn := if c.awaitsTurn t then c.turn.join t else c.turn }).park t) []
  | reader {sig : Signal} {c' : Connection} {events : List Event} : ReaderStep c c' events →
      Transition c (.step .reader sig) c' events
  | heartbeat {sig : Signal} {c' : Connection} {events : List Event} : HeartbeatStep c c' events →
      Transition c (.step .heartbeat sig) c' events
  | sending {n : CallId} {sig : Signal} {c' : Connection} {events : List Event} :
      SendStep c n c' events → Transition c (.step (.send n) sig) c' events
  | closing {n : CallId} {sig : Signal} {c' : Connection} {events : List Event} :
      CloseStep c n c' events → Transition c (.step (.close n) sig) c' events
  | reapReader : c.reader.aborted = true → c.reader.parked = true →
      Transition c (.reap .reader) (({ c with turn := c.turn.leave .reader }).readerAt .finished)
        c.abandoned
  | reapHeartbeat : c.heartbeat.aborted = true → c.heartbeat.parked = true →
      Transition c (.reap .heartbeat)
        (({ c with turn := c.turn.leave .heartbeat }).heartbeatAt .finished) []
  | subscribe (topic : String) : c.isLive = true →
      Transition c (.subscribe topic)
        { c with subscriptions := (c.subscriptions.subscribe topic).1 }
        [.subscribed topic c.subscriptions.channels.length]
  | refuse (topic : String) : c.isLive = false →
      Transition c (.subscribe topic) c [.subscribeRefused topic]
  | unsubscribe (topic : String) : Transition c (.unsubscribe topic)
      { c with subscriptions := c.subscriptions.unsubscribe topic } [.unsubscribed topic]
  | receive {id : ChannelId} {v : Variant} {rest : Subscriptions} :
      c.subscriptions.receive? id = some (v, rest) →
      Transition c (.receive id) { c with subscriptions := rest } [.received id v]
  | dropReceiver (id : ChannelId) : Transition c (.dropReceiver id)
      { c with subscriptions := c.subscriptions.dropReceiver id } [.receiverDropped id]
  | send (m : Message) : Transition c (.send m)
      { c with sends := c.sends ++ [⟨.checking m, false, false⟩] } [.sendCalled c.sends.length m]
  | close : Transition c .close { c with closes := c.closes ++ [⟨.taking, false, false⟩] }
      [.closeCalled c.closes.length]
  | dropHandle : Transition c .dropHandle
      (c.tasks.foldl abort { c with cancelled := true, tasks := [] }) [.cancelled, .handleDropped]
  | elapse (nanos : Nat) : Transition c (.elapse nanos) { c with now := c.now + nanos } []

theorem Transition.of_step? (h : c.step? t sig = some (c', events)) :
    Transition c (.step t sig) c' events := by
  unfold step? at h
  split at h
  · cases h
  · split at h
    · simp only [suspend?, Option.map_eq_some_iff] at h
      obtain ⟨c₁, hsuspend, heq⟩ := h
      cases heq
      split at hsuspend <;> cases hsuspend
      exact .suspend ‹_›
    · cases t with
      | reader => exact .reader (.of_readerStep h)
      | heartbeat => exact .heartbeat (.of_heartbeatStep h)
      | send n => exact .sending (.of_sendStep h)
      | close n => exact .closing (.of_closeStep h)

theorem Transition.of_reap? (h : c.reap? t = some (c', events)) :
    Transition c (.reap t) c' events := by
  unfold reap? at h
  split at h
  · next hreap =>
    have habort : c.isAborted t = true ∧ c.isParked t = true := by simp_all
    cases t with
    | reader => cases h; exact .reapReader habort.1 habort.2
    | heartbeat => cases h; exact .reapHeartbeat habort.1 habort.2
    | send n => cases h
    | close n => cases h
  · cases h

/-- Every move is one of the transitions. -/
theorem Transition.of_next? (h : c.next? m = some (c', events)) : Transition c m c' events := by
  cases m with
  | step t sig => exact .of_step? h
  | reap t => exact .of_reap? h
  | subscribe topic =>
    by_cases hlive : c.isLive = true
    · have hopen : c.next? (.subscribe topic) =
          some ({ c with subscriptions := (c.subscriptions.subscribe topic).1 },
            [.subscribed topic c.subscriptions.channels.length]) := by
        simp [next?, Connection.subscribe, hlive, Subscriptions.subscribe]
      rw [hopen] at h
      cases h
      exact .subscribe topic hlive
    · have hrefused : c.next? (.subscribe topic) = some (c, [.subscribeRefused topic]) := by
        simp [next?, Connection.subscribe, hlive]
      rw [hrefused] at h
      cases h
      exact .refuse topic (by simpa using hlive)
  | unsubscribe topic => cases h; exact .unsubscribe topic
  | receive id =>
    obtain ⟨⟨v, rest⟩, hreceive, heq⟩ := Option.map_eq_some_iff.mp h
    cases heq
    exact .receive hreceive
  | dropReceiver id => cases h; exact .dropReceiver id
  | send m => cases h; exact .send m
  | close => cases h; exact .close
  | dropHandle => cases h; exact .dropHandle
  | elapse nanos => cases h; exact .elapse nanos

/-- No transition changes the address or the settings. -/
theorem Transition.identity_eq (h : Transition c m c' events) :
    c'.address = c.address ∧ c'.settings = c.settings := by
  cases h with
  | @suspend t => cases t <;> exact ⟨rfl, rfl⟩
  | reader h =>
    cases h with
    | read f => cases f <;> exact ⟨rfl, rfl⟩
    | ending _ hending => obtain ⟨_, _, _, _, _, rfl⟩ := hending.frame; exact ⟨rfl, rfl⟩
    | _ => exact ⟨rfl, rfl⟩
  | heartbeat h =>
    cases h with
    | ending _ hending => obtain ⟨_, _, _, _, _, rfl⟩ := hending.frame; exact ⟨rfl, rfl⟩
    | _ => exact ⟨rfl, rfl⟩
  | sending h => cases h <;> exact ⟨rfl, rfl⟩
  | closing h =>
    cases h with
    | @abort t => cases t <;> exact ⟨rfl, rfl⟩
    | ending _ hending | ended _ hending =>
      obtain ⟨_, _, _, _, _, rfl⟩ := hending.frame
      exact ⟨rfl, rfl⟩
    | _ => exact ⟨rfl, rfl⟩
  | dropHandle =>
    obtain ⟨_, _, habort⟩ := abort_frame c.tasks { c with cancelled := true, tasks := [] }
    rw [habort]
    exact ⟨rfl, rfl⟩
  | _ => exact ⟨rfl, rfl⟩

theorem Transition.settings_eq (h : Transition c m c' events) : c'.settings = c.settings :=
  h.identity_eq.2

theorem Reaches.settings_eq {schedule : Schedule} {d : Connection} {past history : List Event}
    (h : Reaches schedule d past c history) : c.settings = d.settings := by
  induction h with
  | refl => rfl
  | move _ _ hnext ih => exact (Transition.of_next? hnext).settings_eq.trans ih

/-! ### Given moves -/

/-- The stream after some moves that its schedule admits, with its history. -/
def follow? (schedule : Schedule) (c : Connection) (history : List Event) :
    List Move → Option (Connection × List Event)
  | [] => some (c, history)
  | m :: rest =>
    if c.admits schedule m then
      (c.next? m).bind fun (c, events) => c.follow? schedule (history ++ events) rest
    else none

theorem Reaches.of_follow? {schedule : Schedule} {d : Connection}
    {past history history' : List Event} (moves : List Move)
    (hreaches : Reaches schedule d past c history)
    (h : c.follow? schedule history moves = some (c', history')) :
    Reaches schedule d past c' history' := by
  induction moves generalizing c history with
  | nil => cases h; exact hreaches
  | cons m rest ih =>
    simp only [follow?] at h
    split at h
    · obtain ⟨⟨c₁, events⟩, hnext, hrest⟩ := Option.bind_eq_some_iff.mp h
      exact ih (hreaches.move ‹_› hnext) hrest
    · cases h

end Uplink.Stream.Connection
