import Uplink.Settings
import Uplink.Stream.Message
import Uplink.Stream.State
import Uplink.Stream.Subscription
import Uplink.Stream.Turn

/-! A stream to one address: the data that its tasks share, and the point that each task has
reached. A reader takes frames from the socket and dials again when it is lost; a heartbeat sends
pings; every call to send or to close is a task of its own while it lasts. The points are the places
between two accesses to shared data, so that a run of single steps can put any tasks' accesses in
any order. -/

namespace Uplink.Stream

/-- The number of a socket, in the order in which sockets were opened. -/
abbrev SocketId := Nat

/-- The number of a call to send or to close, in the order in which calls were made. -/
abbrev CallId := Nat

inductive Task where
  | reader
  | heartbeat
  | send (call : CallId)
  | close (call : CallId)
deriving DecidableEq

/-- A frame from the far end. -/
inductive Inbound where
  | data (content : Message)
  | ping (payload : List UInt8)
  | pong (payload : List UInt8)
  | close
deriving DecidableEq

/-- A frame for the far end. -/
inductive Outbound where
  | data (content : Message)
  | ping
  | pong (payload : List UInt8)
  | close
deriving DecidableEq

/-- Why a socket counts as lost. -/
inductive Loss where
  | closedByPeer
  | failed
  | ended
  | heartbeat
deriving DecidableEq

/-- Ending a stream: the state and the cancellation first, then the subscriptions, then the
socket. -/
inductive Ending where
  | checking
  | marking
  | cancelling
  | clearing
  | waiting
  | saying (socket : SocketId) (since : Instant)
  | shutting (socket : SocketId) (since : Instant)
  | finishing
deriving DecidableEq

inductive ReaderPoint where
  | selecting
  /-- A message was read and is to be offered to every topic. -/
  | offering (value : Variant)
  /-- Topics were found without receivers. -/
  | forgetting (topics : List String)
  /-- A ping was read; the answer waits for its turn. -/
  | answering (payload : List UInt8)
  | ponging (socket : SocketId) (payload : List UInt8) (since : Instant)
  | losing (cause : Loss)
  /-- Waits for the turn to take away the old write half. -/
  | retiring
  | discarding (socket : SocketId) (since : Instant)
  | resting (due : Instant)
  | redialing
  | dialing (since : Instant)
  /-- A dial succeeded; waits for the turn to put the new write half in place. -/
  | placing (socket : SocketId)
  | opening (socket : SocketId)
  | ending (point : Ending)
  | finished

inductive HeartbeatPoint where
  | ticking (due : Instant)
  | checking (next : Instant)
  | waiting (next : Instant)
  | pinging (socket : SocketId) (since next : Instant)
  | failing (next : Instant)
  | ending (point : Ending)
  | finished
deriving DecidableEq

/-- What a call to send answers. -/
inductive SendResult where
  | sent
  /-- The stream was closing or closed when the call was made. -/
  | notFound
  /-- There was no socket when the turn came. -/
  | notConnected
  | failed
  | timedOut
deriving DecidableEq

inductive SendPoint where
  | checking (message : Message)
  | waiting (message : Message)
  | writing (message : Message) (socket : SocketId) (since : Instant)
  | returned (result : SendResult)
deriving DecidableEq

inductive ClosePoint where
  | taking
  | looking (tasks : List Task)
  | cancelling (tasks : List Task)
  | joining (tasks : List Task) (since : Instant)
  | ending (point : Ending)
  | returned
deriving DecidableEq

/-- A task at a point: parked while what it waits for has not come, and marked once it is to be
aborted. -/
structure Thread (α : Type) where
  point : α
  parked : Bool
  aborted : Bool
deriving DecidableEq

structure Counters where
  received : Nat
  sent : Nat
  dropped : Nat
  reconnects : Nat
  failedDials : Nat
deriving DecidableEq

structure Connection where
  address : String
  settings : StreamSettings
  state : State
  /-- Tells the reader and the heartbeat to stop. -/
  cancelled : Bool
  subscriptions : Subscriptions
  /-- The write half in place, by its socket. -/
  sink : Option SocketId
  /-- The turn at the write half. -/
  turn : Turn Task
  /-- A failed ping asks the reader to dial again. -/
  wake : Bool
  counters : Counters
  /-- The wall clock, in milliseconds, when the far end last showed that it is alive. -/
  lastHeartbeat : Nat
  /-- The sockets opened so far. -/
  sockets : Nat
  /-- The socket that the reader reads. -/
  source : SocketId
  reader : Thread ReaderPoint
  heartbeat : Thread HeartbeatPoint
  sends : List (Thread SendPoint)
  closes : List (Thread ClosePoint)
  /-- The background tasks that no call to close has taken on yet. -/
  tasks : List Task
  now : Instant
  /-- The wall clock, in milliseconds, when the clock read zero. -/
  epoch : Int

namespace Connection

/-- The wall clock in milliseconds; before its epoch it reads zero. -/
def wall (c : Connection) : Nat := (c.epoch + c.now / 1000000).toNat

/-- The stream right after its first dial succeeded. -/
def opened (address : String) (settings : StreamSettings) (now : Instant) (epoch : Int) :
    Connection where
  address := address
  settings := settings
  state := .opened
  cancelled := false
  subscriptions := .empty
  sink := some 0
  turn := .free
  wake := false
  counters := ⟨0, 0, 0, 0, 0⟩
  lastHeartbeat := (epoch + now / 1000000).toNat
  sockets := 1
  source := 0
  reader := ⟨.selecting, true, false⟩
  heartbeat := match settings.pingInterval? with
    | some period => ⟨.ticking (now + period.nanos), true, false⟩
    | none => ⟨.finished, true, false⟩
  sends := []
  closes := []
  tasks := match settings.pingInterval? with
    | some _ => [.reader, .heartbeat]
    | none => [.reader]
  now := now
  epoch := epoch

def isLive (c : Connection) : Bool := c.state.isLive

def writeTimeout (c : Connection) : Nat := (Duration.ofMillis c.settings.writeTimeoutMs).nanos

def handshakeTimeout (c : Connection) : Nat :=
  (Duration.ofMillis c.settings.handshakeTimeoutMs).nanos

def reconnectDelay (c : Connection) : Nat := (Duration.ofMillis c.settings.reconnectDelayMs).nanos

/-- The point of a call to send. -/
def sendPoint? (c : Connection) (n : CallId) : Option SendPoint := (c.sends[n]?).map Thread.point

/-- The point of a call to close. -/
def closePoint? (c : Connection) (n : CallId) : Option ClosePoint := (c.closes[n]?).map Thread.point

/-- Whether a task has run to its end. -/
def hasFinished (c : Connection) : Task → Bool
  | .reader => match c.reader.point with
    | .finished => true
    | _ => false
  | .heartbeat => match c.heartbeat.point with
    | .finished => true
    | _ => false
  | .send n => match c.sendPoint? n with
    | some (.returned _) | none => true
    | some _ => false
  | .close n => match c.closePoint? n with
    | some .returned | none => true
    | some _ => false

/-- Whether a task is parked. -/
def isParked (c : Connection) : Task → Bool
  | .reader => c.reader.parked
  | .heartbeat => c.heartbeat.parked
  | .send n => (c.sends[n]?.map (·.parked)).getD true
  | .close n => (c.closes[n]?.map (·.parked)).getD true

def isAborted (c : Connection) : Task → Bool
  | .reader => c.reader.aborted
  | .heartbeat => c.heartbeat.aborted
  | .send _ | .close _ => false

/-- Whether a task neither runs nor is between two awaits. -/
def isQuiet (c : Connection) (t : Task) : Bool := c.hasFinished t || c.isParked t

/-- Every task that was ever started. -/
def allTasks (c : Connection) : List Task :=
  .reader :: .heartbeat :: ((List.range c.sends.length).map .send ++
    (List.range c.closes.length).map .close)

end Connection

end Uplink.Stream
