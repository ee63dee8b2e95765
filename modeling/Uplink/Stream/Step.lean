import Uplink.Stream.Connection

/-! Single steps of a stream. `Connection.next?` says which move leads where and what is noted of
it: a step of a task with a signal for what it waited for, the end of an aborted task, a call on the
stream, or time that passes. A step of a task makes at most one access to the state, the
cancellation, the subscriptions or the write half; times and counts are noted along with it. -/

namespace Uplink.Stream

/-- What a task is told at its point. -/
inductive Signal where
  /-- Go on: nothing is awaited, or what is awaited has come. -/
  | go
  /-- What is awaited has not come. -/
  | suspend
  | frame (content : Inbound)
  | readFailed
  | readEnded
  | written
  | writeFailed
  /-- The time limit of a write, or of waiting for a task, has passed. -/
  | timedOut
  | dialed
  | dialFailed
deriving DecidableEq

/-- What the history of a stream notes. -/
inductive Event where
  | entered (state : State)
  | cancelled
  | read (socket : SocketId) (frame : Inbound)
  | lost (socket : SocketId) (cause : Loss)
  /-- A message was offered to every topic. -/
  | offered (value : Variant) (offers : List (String × ChannelId × Offer))
  /-- The far end showed that it is alive, at a wall clock in milliseconds. -/
  | heard (wall : Nat)
  | dialStarted (time : Instant)
  | dialEnded (time : Instant) (succeeded : Bool)
  | dialAbandoned (time : Instant)
  /-- The write half of a socket was put in place. -/
  | installed (socket : SocketId)
  /-- The write half of a socket was taken away to be closed. -/
  | withdrawn (socket : SocketId)
  | wrote (socket : SocketId) (frame : Outbound)
  | writeFailed (socket : SocketId) (frame : Outbound)
  /-- A ping found no socket, or could not be written to it. -/
  | pingFailed (socket : Option SocketId)
  | subscribed (topic : String) (id : ChannelId)
  | subscribeRefused (topic : String)
  | unsubscribed (topic : String)
  | forgot (topics : List String)
  | cleared
  | received (id : ChannelId) (value : Variant)
  | receiverDropped (id : ChannelId)
  | sendCalled (call : CallId) (message : Message)
  | sendReturned (call : CallId) (result : SendResult)
  | closeCalled (call : CallId)
  | closeReturned (call : CallId)
  | aborted (task : Task)
  | handleDropped

namespace Connection

/-- A step's result: the stream after it, and what is noted. -/
abbrev Result := Option (Connection × List Event)

def setState (c : Connection) (s : State) : Connection := { c with state := s }

/-- Notes that the far end is alive. -/
def hear (c : Connection) : Connection := { c with lastHeartbeat := c.wall }

/-- Marks a background task to be aborted. -/
def abort (c : Connection) : Task → Connection
  | .reader => { c with reader := { c.reader with aborted := true } }
  | .heartbeat => { c with heartbeat := { c.heartbeat with aborted := true } }
  | _ => c

/-- Whether an end of writing to a socket may be signalled now. -/
def writeEnds (c : Connection) (since : Instant) : Signal → Bool
  | .written | .writeFailed => true
  | .timedOut => since + c.writeTimeout ≤ c.now
  | _ => false

/-- A step of ending the stream by a task; no further point means that it is through. -/
def endingStep (c : Connection) (t : Task) (point : Ending) (sig : Signal) :
    Option (Connection × Option Ending × List Event) :=
  match point, sig with
  | .checking, .go => some (c, if c.state = .closed then none else some .marking, [])
  | .marking, .go => some (c.setState .closing, some .cancelling, [.entered .closing])
  | .cancelling, .go => some ({ c with cancelled := true }, some .clearing, [.cancelled])
  | .clearing, .go =>
    some ({ c with subscriptions := c.subscriptions.clear }, some .waiting, [.cleared])
  | .waiting, .go =>
    if c.turn.mayTake t then
      match c.sink with
      | none => some ({ c with turn := (c.turn.take t).leave t }, some .finishing, [])
      | some s => some ({ c with turn := c.turn.take t, sink := none }, some (.saying s c.now),
          [.withdrawn s])
    else none
  | .saying s since, sig =>
    if c.writeEnds since sig then
      some (c, some (.shutting s c.now),
        [if sig = .written then .wrote s .close else .writeFailed s .close])
    else none
  | .shutting _ since, sig =>
    if c.writeEnds since sig then
      some ({ c with turn := c.turn.leave t }, some .finishing, [])
    else none
  | .finishing, .go => some (c.setState .closed, none, [.entered .closed])
  | _, _ => none

/-- The reader at a new point, still running. -/
def readerAt (c : Connection) (p : ReaderPoint) : Connection :=
  { c with reader := { c.reader with point := p, parked := false } }

/-- The reader takes a frame from the socket. -/
def readFrame (c : Connection) (f : Inbound) : Connection × List Event :=
  match f with
  | .data m => (c.readerAt (.offering (.decode m.payload)), [.read c.source f])
  | .ping p => (c.hear.readerAt (.answering p), [.read c.source f, .heard c.wall])
  | .pong _ => (c.hear.readerAt .selecting, [.read c.source f, .heard c.wall])
  | .close => (c.readerAt (.losing .closedByPeer), [.read c.source f])

/-- Offers a message to every topic and counts it. -/
def offerAll (c : Connection) (v : Variant) : Connection × List (String × ChannelId × Offer) :=
  let capacity := c.settings.channelCapacity.toNat
  let offers := c.subscriptions.offers capacity
  ({ c with
      subscriptions := c.subscriptions.offer capacity v
      counters := { c.counters with
        received := c.counters.received + 1
        dropped := c.counters.dropped + Subscriptions.droppedCount offers } }, offers)

/-- The reader opens the stream again on a new socket: a request to dial again from the old socket
is forgotten. -/
def reopen (c : Connection) (s : SocketId) : Connection :=
  { c.hear with
    wake := false
    state := .opened
    source := s
    counters := { c.counters with reconnects := c.counters.reconnects + 1 } }

def readerStep (c : Connection) (sig : Signal) : Result :=
  match c.reader.point, sig with
  | .selecting, .go =>
    if c.cancelled then some (c.readerAt .finished, [])
    else if c.wake then some (({ c with wake := false }).readerAt (.losing .heartbeat), [])
    else none
  | .selecting, .frame f => if c.cancelled || c.wake then none else some (c.readFrame f)
  | .selecting, .readFailed =>
    if c.cancelled || c.wake then none else some (c.readerAt (.losing .failed), [])
  | .selecting, .readEnded =>
    if c.cancelled || c.wake then none else some (c.readerAt (.losing .ended), [])
  | .offering v, .go =>
    let (c, offers) := c.offerAll v
    match Subscriptions.gone offers with
    | [] => some (c.readerAt .selecting, [.offered v offers])
    | topics => some (c.readerAt (.forgetting topics), [.offered v offers])
  | .forgetting topics, .go =>
    some (({ c with subscriptions := c.subscriptions.forgetAll topics }).readerAt .selecting,
      [.forgot topics])
  | .answering p, .go =>
    if c.turn.mayTake .reader then
      match c.sink with
      | none => some (({ c with turn := (c.turn.take .reader).leave .reader }).readerAt
          .selecting, [])
      | some s => some (({ c with turn := c.turn.take .reader }).readerAt (.ponging s p c.now), [])
    else none
  | .ponging s p since, sig =>
    if c.writeEnds since sig then
      some (({ c with turn := c.turn.leave .reader }).readerAt .selecting,
        [if sig = .written then .wrote s (.pong p) else .writeFailed s (.pong p)])
    else none
  | .losing cause, .go =>
    if c.settings.reconnect then
      some ((c.setState .reconnecting).readerAt .retiring,
        [.lost c.source cause, .entered .reconnecting])
    else some (c.readerAt (.ending .checking), [.lost c.source cause])
  | .retiring, .go =>
    if c.turn.mayTake .reader then
      match c.sink with
      | none => some (({ c with turn := (c.turn.take .reader).leave .reader }).readerAt
          (.resting (c.now + c.reconnectDelay)), [])
      | some s => some (({ c with turn := c.turn.take .reader, sink := none }).readerAt
          (.discarding s c.now), [.withdrawn s])
    else none
  | .discarding _ since, sig =>
    if c.writeEnds since sig then
      some (({ c with turn := c.turn.leave .reader }).readerAt
        (.resting (c.now + c.reconnectDelay)), [])
    else none
  | .resting due, .go =>
    if c.cancelled then some (c.readerAt .finished, [])
    else if due ≤ c.now then some (c.readerAt .redialing, [])
    else none
  | .redialing, .go =>
    if c.cancelled then some (c.readerAt .finished, [])
    else some (c.readerAt (.dialing c.now), [.dialStarted c.now])
  | .dialing _, .go =>
    if c.cancelled then some (c.readerAt .finished, [.dialAbandoned c.now]) else none
  | .dialing _, .dialed =>
    if c.cancelled then none
    else some (({ c with sockets := c.sockets + 1 }).readerAt (.placing c.sockets),
      [.dialEnded c.now true])
  | .dialing _, .dialFailed =>
    if c.cancelled then none
    else some (({ c with counters :=
        { c.counters with failedDials := c.counters.failedDials + 1 } }).readerAt
      (.resting (c.now + c.reconnectDelay)), [.dialEnded c.now false])
  | .placing s, .go =>
    if c.turn.mayTake .reader then
      some (({ c with sink := some s, turn := (c.turn.take .reader).leave .reader }).readerAt
        (.opening s), [.installed s])
    else none
  | .opening s, .go =>
    some ((c.reopen s).readerAt .selecting, [.heard c.wall, .entered .opened])
  | .ending e, sig =>
    (c.endingStep .reader e sig).map fun (c, next, events) =>
      (c.readerAt ((next.map .ending).getD .finished), events)
  | _, _ => none

def heartbeatAt (c : Connection) (p : HeartbeatPoint) : Connection :=
  { c with heartbeat := { c.heartbeat with point := p, parked := false } }

/-- How late a tick may come without moving the ticks after it. -/
def tickTolerance : Nat := 5000000

/-- When the tick after one that was due comes next: missed ticks are not made up. -/
def tickAfter (c : Connection) (due : Instant) : Instant :=
  let period := (Duration.ofMillis c.settings.pingIntervalMs).nanos
  if due + tickTolerance < c.now then c.now + period else due + period

def heartbeatStep (c : Connection) (sig : Signal) : Result :=
  match c.heartbeat.point, sig with
  | .ticking due, .go =>
    if c.cancelled then some (c.heartbeatAt .finished, [])
    else if due ≤ c.now then some (c.heartbeatAt (.checking (c.tickAfter due)), [])
    else none
  | .checking next, .go =>
    some (c.heartbeatAt (if c.state = .opened then .waiting next else .ticking next), [])
  | .waiting next, .go =>
    if c.turn.mayTake .heartbeat then
      match c.sink with
      | none => some (({ c with turn := (c.turn.take .heartbeat).leave .heartbeat }).heartbeatAt
          (.failing next), [.pingFailed none])
      | some s => some (({ c with turn := c.turn.take .heartbeat }).heartbeatAt
          (.pinging s c.now next), [])
    else none
  | .pinging s since next, sig =>
    if c.writeEnds since sig then
      let c := { c with turn := c.turn.leave .heartbeat }
      if sig = .written then some (c.heartbeatAt (.ticking next), [.wrote s .ping])
      else some (c.heartbeatAt (.failing next), [.writeFailed s .ping, .pingFailed (some s)])
    else none
  | .failing next, .go =>
    if c.settings.reconnect then some (({ c with wake := true }).heartbeatAt (.ticking next), [])
    else some (c.heartbeatAt (.ending .checking), [])
  | .ending e, sig =>
    (c.endingStep .heartbeat e sig).map fun (c, next, events) =>
      (c.heartbeatAt ((next.map .ending).getD .finished), events)
  | _, _ => none

def sendAt (c : Connection) (n : CallId) (p : SendPoint) : Connection :=
  { c with sends := c.sends.set n ⟨p, false, false⟩ }

/-- A call to send returns. -/
def sendReturns (c : Connection) (n : CallId) (result : SendResult) : Connection × List Event :=
  (c.sendAt n (.returned result), [.sendReturned n result])

def sendStep (c : Connection) (n : CallId) (sig : Signal) : Result :=
  match c.sendPoint? n, sig with
  | some (.checking m), .go =>
    if c.isLive then some (c.sendAt n (.waiting m), []) else some (c.sendReturns n .notFound)
  | some (.waiting m), .go =>
    if c.turn.mayTake (.send n) then
      match c.sink with
      | none => some (({ c with turn := (c.turn.take (.send n)).leave (.send n) }).sendReturns n
          .notConnected)
      | some s => some (({ c with turn := c.turn.take (.send n) }).sendAt n
          (.writing m s c.now), [])
    else none
  | some (.writing m s since), sig =>
    if c.writeEnds since sig then
      let c := { c with turn := c.turn.leave (.send n) }
      if sig = .written then
        let (c, events) := ({ c with counters :=
          { c.counters with sent := c.counters.sent + 1 } }).sendReturns n .sent
        some (c, .wrote s (.data m) :: events)
      else
        let (c, events) := c.sendReturns n (if sig = .timedOut then .timedOut else .failed)
        some (c, .writeFailed s (.data m) :: events)
    else none
  | _, _ => none

def closeAt (c : Connection) (n : CallId) (p : ClosePoint) : Connection :=
  { c with closes := c.closes.set n ⟨p, false, false⟩ }

def closeReturns (c : Connection) (n : CallId) : Connection × List Event :=
  (c.closeAt n .returned, [.closeReturned n])

def closeStep (c : Connection) (n : CallId) (sig : Signal) : Result :=
  match c.closePoint? n, sig with
  | some .taking, .go => some (({ c with tasks := [] }).closeAt n (.looking c.tasks), [])
  | some (.looking tasks), .go =>
    if tasks = [] ∧ c.state = .closed then some (c.closeReturns n)
    else some (c.closeAt n (.cancelling tasks), [])
  | some (.cancelling tasks), .go =>
    some (({ c with cancelled := true }).closeAt n (.joining tasks c.now), [.cancelled])
  | some (.joining [] _), .go => some (c.closeAt n (.ending .checking), [])
  | some (.joining (t :: rest) _), .go =>
    if c.hasFinished t then some (c.closeAt n (.joining rest c.now), []) else none
  | some (.joining (t :: rest) since), .timedOut =>
    if since + c.writeTimeout ≤ c.now then
      some ((c.abort t).closeAt n (.joining rest c.now), [.aborted t])
    else none
  | some (.ending e), sig =>
    (c.endingStep (.close n) e sig).map fun (c, next, events) =>
      match next with
      | some e => (c.closeAt n (.ending e), events)
      | none =>
        let (c, returned) := c.closeReturns n
        (c, events ++ returned)
  | _, _ => none

/-- Ending the stream may have to wait at a point, for the turn or for the socket. -/
def endingWaits (c : Connection) (t : Task) : Ending → Bool
  | .waiting => !c.turn.mayTake t
  | .saying .. | .shutting .. => true
  | _ => false

/-- Whether a task may have to wait at its point: what it awaits has not come. -/
def waits (c : Connection) : Task → Bool
  | .reader =>
    match c.reader.point with
    | .selecting => !c.cancelled && !c.wake
    | .answering _ | .retiring | .placing _ => !c.turn.mayTake .reader
    | .ponging .. | .discarding .. => true
    | .resting due => !c.cancelled && c.now < due
    | .dialing _ => !c.cancelled
    | .ending e => c.endingWaits .reader e
    | _ => false
  | .heartbeat =>
    match c.heartbeat.point with
    | .ticking due => !c.cancelled && c.now < due
    | .waiting _ => !c.turn.mayTake .heartbeat
    | .pinging .. => true
    | .ending e => c.endingWaits .heartbeat e
    | _ => false
  | .send n =>
    match c.sendPoint? n with
    | some (.waiting _) => !c.turn.mayTake (.send n)
    | some (.writing ..) => true
    | _ => false
  | .close n =>
    match c.closePoint? n with
    | some (.joining (t :: _) _) => !c.hasFinished t
    | some (.ending e) => c.endingWaits (.close n) e
    | _ => false

/-- Whether a task awaits the turn at the write half. -/
def awaitsTurn (c : Connection) : Task → Bool
  | .reader =>
    match c.reader.point with
    | .answering _ | .retiring | .placing _ | .ending .waiting => true
    | _ => false
  | .heartbeat =>
    match c.heartbeat.point with
    | .waiting _ | .ending .waiting => true
    | _ => false
  | .send n =>
    match c.sendPoint? n with
    | some (.waiting _) => true
    | _ => false
  | .close n =>
    match c.closePoint? n with
    | some (.ending .waiting) => true
    | _ => false

def park (c : Connection) : Task → Connection
  | .reader => { c with reader := { c.reader with parked := true } }
  | .heartbeat => { c with heartbeat := { c.heartbeat with parked := true } }
  | .send n => { c with sends := c.sends.modify n fun t => { t with parked := true } }
  | .close n => { c with closes := c.closes.modify n fun t => { t with parked := true } }

/-- Parks a task that has to wait; one that awaits the turn joins its queue. -/
def suspend? (c : Connection) (t : Task) : Option Connection :=
  if c.waits t then
    some ({ c with turn := if c.awaitsTurn t then c.turn.join t else c.turn }.park t)
  else none

/-- A step of a task. Once a parked task is to be aborted it takes no step any more. -/
def step? (c : Connection) (t : Task) (sig : Signal) : Result :=
  if c.isAborted t && c.isParked t then none
  else
    match sig with
    | .suspend => (c.suspend? t).map (·, [])
    | sig =>
      match t with
      | .reader => c.readerStep sig
      | .heartbeat => c.heartbeatStep sig
      | .send n => c.sendStep n sig
      | .close n => c.closeStep n sig

/-- The end of a parked task that is to be aborted: it leaves the turn, and a socket that it was
closing or opening goes with it. -/
def reap? (c : Connection) (t : Task) : Result :=
  if c.isAborted t && c.isParked t && !c.hasFinished t then
    let c := { c with turn := c.turn.leave t }
    match t with
    | .reader => some (c.readerAt .finished, match c.reader.point with
      | .dialing _ => [.dialAbandoned c.now]
      | _ => [])
    | .heartbeat => some (c.heartbeatAt .finished, [])
    | _ => none
  else none

/-- Subscribes to a topic while the stream is live. -/
def subscribe (c : Connection) (topic : String) : Connection × Option ChannelId :=
  if c.isLive then
    let (subscriptions, id) := c.subscriptions.subscribe topic
    ({ c with subscriptions }, some id)
  else (c, none)

/-- What may happen next to a stream. -/
inductive Move where
  | step (task : Task) (signal : Signal)
  | reap (task : Task)
  | subscribe (topic : String)
  | unsubscribe (topic : String)
  | receive (id : ChannelId)
  | dropReceiver (id : ChannelId)
  | send (message : Message)
  | close
  | dropHandle
  | elapse (nanos : Nat)

/-- The stream after a move, and what is noted; nothing if the move is not possible. -/
def next? (c : Connection) : Move → Result
  | .step t sig => c.step? t sig
  | .reap t => c.reap? t
  | .subscribe topic =>
    match c.subscribe topic with
    | (c, some id) => some (c, [.subscribed topic id])
    | (c, none) => some (c, [.subscribeRefused topic])
  | .unsubscribe topic =>
    some ({ c with subscriptions := c.subscriptions.unsubscribe topic }, [.unsubscribed topic])
  | .receive id =>
    (c.subscriptions.receive? id).map fun (v, subscriptions) =>
      ({ c with subscriptions }, [.received id v])
  | .dropReceiver id =>
    some ({ c with subscriptions := c.subscriptions.dropReceiver id }, [.receiverDropped id])
  | .send m =>
    some ({ c with sends := c.sends ++ [⟨.checking m, false, false⟩] },
      [.sendCalled c.sends.length m])
  | .close =>
    some ({ c with closes := c.closes ++ [⟨.taking, false, false⟩] },
      [.closeCalled c.closes.length])
  | .dropHandle =>
    some (c.tasks.foldl abort { c with cancelled := true, tasks := [] },
      [.cancelled, .handleDropped])
  | .elapse n => some ({ c with now := c.now + n }, [])

end Connection

end Uplink.Stream
