import Uplink.Stream.Handshake
import Uplink.Stream.Registry
import Uplink.Stream.Step

/-! Single steps of the calls on a registry. As for streams, a call stands at a point between two
waits, and `next?` says which move leads where and what is noted of it. -/

namespace Uplink.Stream.Registry

/-- What a call is told at its point. -/
inductive Signal where
  | go
  | suspend
  | dialed
  | dialFailed (reason : String)
  | dialTimedOut
deriving DecidableEq

/-- What the history of a registry notes. -/
inductive Event where
  | called (caller : Nat) (call : Call)
  /-- A call got its turn. -/
  | turned (caller : Nat)
  | dialStarted (caller : Nat) (address : String)
  | dialEnded (caller : Nat) (address : String) (succeeded : Bool)
  | tracked (address : String) (id : ConnectionId)
  | forgot (address : String) (id : ConnectionId)
  | returned (caller : Nat) (answer : Answer)
  | stream (id : ConnectionId) (event : Stream.Event)

/-- A step's result: the registry after it, and what is noted. -/
abbrev Result := Option (Registry × List Event)

/-- A call at a new point. A call that waits for a call on a stream is parked from the start. -/
def callAt (r : Registry) (n : Nat) (p : Point) : Registry :=
  let parked := match p with
    | .replacing .. | .sending .. | .closing _ | .returned _ => true
    | _ => false
  { r with calls := r.calls.set n ⟨p, parked, false⟩ }

def returns (r : Registry) (n : Nat) (answer : Answer) : Registry × List Event :=
  (r.callAt n (.returned answer), [.returned n answer])

def takeTurn (r : Registry) (n : Nat) : Registry := { r with turn := r.turn.take n }

def leaveTurn (r : Registry) (n : Nat) : Registry := { r with turn := r.turn.leave n }

/-- A move of a stream: the registry after it, and what is noted. -/
def moveStream (r : Registry) (id : ConnectionId) (m : Connection.Move) : Result :=
  match r.connections[id]? with
  | none => none
  | some c => (c.next? m).map fun (c, events) =>
    ({ r with connections := r.connections.set id c }, events.map (.stream id))

/-- Starts a call to close on a stream; the call's number comes with the result. -/
def startClose (r : Registry) (id : ConnectionId) : Registry × CallId × List Event :=
  let n := ((r.connections[id]?).map fun c => c.closes.length).getD 0
  match r.moveStream id .close with
  | some (r, events) => (r, n, events)
  | none => (r, n, [])

/-- Starts calls to close on streams in turn. -/
def startCloses (r : Registry) : List ConnectionId →
    Registry × List (ConnectionId × CallId) × List Event
  | [] => (r, [], [])
  | id :: ids =>
    let (r, n, events) := r.startClose id
    let (r, rest, more) := r.startCloses ids
    (r, (id, n) :: rest, events ++ more)

/-- Why a dial cannot even begin, if it cannot. -/
def dialProblem? (address : String) (settings : StreamSettings) : Option Error :=
  match settings.validate with
  | .error e => some e
  | .ok () =>
    match Handshake.prepare "" address settings.headers.entries with
    | .error reason => some (.handshake address reason)
    | .ok _ => none

/-- Begins to dial, or ends the call that keeps its turn if no dial can begin. -/
def beginDial (r : Registry) (n : Nat) (address : String) (settings : StreamSettings) :
    Registry × List Event :=
  match dialProblem? address settings with
  | some e => (r.leaveTurn n).returns n (.failed e)
  | none => (r.callAt n (.dialing address settings r.now), [.dialStarted n address])

/-- The dial of a call failed. -/
def dialFails (r : Registry) (n : Nat) (address reason : String) : Registry × List Event :=
  let (r, events) := (r.leaveTurn n).returns n (.failed (.handshake address reason))
  (r, .dialEnded n address false :: events)

/-- The dial of a call succeeded: a new stream is tracked. -/
def dialSucceeds (r : Registry) (n : Nat) (address : String) (settings : StreamSettings) :
    Registry × List Event :=
  let id := r.connections.length
  let c := Connection.opened address settings r.now r.epoch
  let r := { r with connections := r.connections ++ [c], tracked := r.tracked.insert address id }
  let (r, events) := (r.leaveTurn n).returns n (.connected id)
  (r, .dialEnded n address true :: .tracked address id :: events)

/-- Forgets an address. -/
def forget (r : Registry) (address : String) : Registry :=
  { r with tracked := r.tracked.erase address }

/-- Forgets every address; what was tracked comes with the result. -/
def forgetAll (r : Registry) : List (String × ConnectionId) × Registry :=
  (r.tracked.entries, { r with tracked := ∅ })

/-- A call whose turn it is looks at what is tracked. -/
def look (r : Registry) (n : Nat) : Call → Registry × List Event
  | .connect address settings =>
    match r.live? address with
    | some id => r.returns n (.connected id)
    | none => (r.callAt n (.claiming address settings), [])
  | .get address => r.returns n (.found (r.tracked.get? address))
  | .subscribe address topic =>
    match (r.live? address).bind fun id => (r.connections[id]?).map (id, ·) with
    | none => r.returns n (.failed (.connectionNotFound address))
    | some (id, c) =>
      match c.subscribe topic with
      | (_, none) => r.returns n (.failed (.connectionNotFound address))
      | (c, some channel) =>
        let (r, events) := { r with connections := r.connections.set id c }.returns n
          (.subscribed id channel)
        (r, .stream id (.subscribed topic channel) :: events)
  | .send address message =>
    match r.live? address with
    | none => r.returns n (.failed (.connectionNotFound address))
    | some id =>
      let k := ((r.connections[id]?).map fun c => c.sends.length).getD 0
      match r.moveStream id (.send message) with
      | some (r, events) => (r.callAt n (.sending id k), events)
      | none => (r, [])
  | .close address =>
    match r.tracked.get? address with
    | none => r.returns n (.failed (.connectionNotFound address))
    | some id =>
      let (r, k, events) := (r.forget address).startClose id
      (r.callAt n (.closing [(id, k)]), .forgot address id :: events)
  | .closeAll =>
    let (forgotten, r) := r.forgetAll
    let (r, closings, events) := r.startCloses (forgotten.map Prod.snd)
    (r.callAt n (.closing closings),
      forgotten.map (fun (address, id) => .forgot address id) ++ events)

/-- A call that keeps its turn looks again, and dials if there is still nothing live. -/
def claim (r : Registry) (n : Nat) (address : String) (settings : StreamSettings) :
    Registry × List Event :=
  match r.tracked.get? address with
  | none => r.beginDial n address settings
  | some id =>
    if r.isLive id then (r.leaveTurn n).returns n (.connected id)
    else
      let (r, k, events) := (r.forget address).startClose id
      (r.callAt n (.replacing address settings id k), .forgot address id :: events)

/-- Whether a call waits for a turn in which it only looks. -/
def readsNext (r : Registry) (n : Nat) : Bool :=
  match r.point? n with
  | some (.looking call) => call.reads
  | _ => false

/-- Whether a call may take its turn now: nobody keeps the turn, and nobody waits before the call
whose turn comes alone. Calls that only look take their turns together, in any order. -/
def mayEnter (r : Registry) (n : Nat) : Bool :=
  r.turn.holder.isNone &&
    (r.turn.queue.takeWhile (· != n)).all fun m => r.readsNext n && r.readsNext m

/-- Whether a task of a stream has run to its end. -/
def taskFinished (r : Registry) (id : ConnectionId) (t : Task) : Bool :=
  (r.connections[id]?).all (·.hasFinished t)

/-- A step of a call. -/
def callStep (r : Registry) (n : Nat) (sig : Signal) : Result :=
  match r.point? n, sig with
  | some (.looking call), .go =>
    if r.mayEnter n then
      let (r, events) := ((r.takeTurn n).leaveTurn n).look n call
      some (r, .turned n :: events)
    else none
  | some (.claiming address settings), .go =>
    if r.mayEnter n then
      let (r, events) := (r.takeTurn n).claim n address settings
      some (r, .turned n :: events)
    else none
  | some (.replacing address settings id k), .go =>
    if r.taskFinished id (.close k) then some (r.beginDial n address settings) else none
  | some (.dialing address settings _), .dialed => some (r.dialSucceeds n address settings)
  | some (.dialing address _ _), .dialFailed reason => some (r.dialFails n address reason)
  | some (.dialing address settings since), .dialTimedOut =>
    if since + (Duration.ofMillis settings.handshakeTimeoutMs).nanos ≤ r.now then
      some (r.dialFails n address (Handshake.lateMessage settings.handshakeTimeoutMs))
    else none
  | some (.sending id k), .go =>
    match (r.connections[id]?).bind (·.sendPoint? k) with
    | some (.returned result) => some (r.returns n (.sent id result))
    | _ => none
  | some (.closing closings), .go =>
    if closings.all fun (id, k) => r.taskFinished id (.close k) then some (r.returns n .closed)
    else none
  | _, _ => none

/-- Whether a call may have to wait at its point. -/
def waits (r : Registry) (n : Nat) : Bool :=
  match r.point? n with
  | some (.looking _) | some (.claiming ..) => !r.mayEnter n
  | some (.replacing _ _ id k) => !r.taskFinished id (.close k)
  | some (.dialing ..) => true
  | some (.sending id k) => !r.taskFinished id (.send k)
  | some (.closing closings) => !closings.all fun (id, k) => r.taskFinished id (.close k)
  | _ => false

/-- Whether a call awaits its turn. -/
def awaitsTurn (r : Registry) (n : Nat) : Bool :=
  match r.point? n with
  | some (.looking _) | some (.claiming ..) => true
  | _ => false

/-- Parks a call that has to wait; one that awaits its turn joins the queue. -/
def suspend? (r : Registry) (n : Nat) : Option Registry :=
  if r.waits n then
    some { r with
      turn := if r.awaitsTurn n then r.turn.join n else r.turn
      calls := r.calls.modify n fun t => { t with parked := true } }
  else none

/-- Whether something has a use for a stream's handle: it is tracked, or a call is at work on it. -/
def isHeld (r : Registry) (id : ConnectionId) : Bool :=
  r.tracked.entries.any (·.2 == id) || r.calls.any fun t =>
    match t.point with
    | .replacing _ _ stale _ => stale == id
    | .sending s _ => s == id
    | .closing closings => closings.any (·.1 == id)
    | _ => false

/-- What may happen next. Callers may use the streams that they were given, too; time passes for all
alike. -/
inductive Move where
  | call (call : Call)
  | step (caller : Nat) (signal : Signal)
  | stream (id : ConnectionId) (move : Connection.Move)
  | elapse (nanos : Nat)

/-- The registry after a move, and what is noted; nothing if the move is not possible. -/
def next? (r : Registry) : Move → Result
  | .call call =>
    some ({ r with calls := r.calls ++ [⟨.looking call, false, false⟩] },
      [.called r.calls.length call])
  | .step n .suspend => (r.suspend? n).map (·, [])
  | .step n sig => r.callStep n sig
  | .stream _ (.elapse _) => none
  | .stream id .dropHandle => if r.isHeld id then none else r.moveStream id .dropHandle
  | .stream id m => r.moveStream id m
  | .elapse n =>
    some ({ r with
      now := r.now + n
      connections := r.connections.map fun c => { c with now := c.now + n } }, [])

end Uplink.Stream.Registry
