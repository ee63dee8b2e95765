import Uplink.Stream.Registry.Step

/-! What streams ask of the runtime that their tasks run on: a channel for each subscription, and
ticks for a heartbeat. The runtime does not answer a request that it cannot meet; it ends the task
that made it. -/

namespace Uplink.Stream

/-- Why the runtime ends a task. -/
inductive Fault where
  /-- A channel was to hold nothing. -/
  | emptyChannel
  /-- A channel was to hold more than the runtime can count. -/
  | largeChannel
  /-- Ticks were to come without time between them. -/
  | restlessTicks
deriving DecidableEq

/-- The most messages that a channel can be made for: the largest word without its last three
bits. -/
def channelLimit : Nat := 0x1fffffffffffffff

/-- Why no channel can be made for a number of messages, if none can. -/
def channelFault? (capacity : UInt64) : Option Fault :=
  if capacity = 0 then some .emptyChannel
  else if channelLimit < capacity.toNat then some .largeChannel
  else none

/-- Why ticks cannot come at a period, if they cannot. -/
def ticksFault? (period : Duration) : Option Fault :=
  if period.nanos = 0 then some .restlessTicks else none

/-- What the start of a stream's tasks fails with, if it does: only a heartbeat asks for ticks. -/
def startFault? (settings : StreamSettings) : Option Fault :=
  settings.pingInterval?.bind ticksFault?

/-- What a move of a stream fails with, if it does. A subscriber's channel is made before the stream
looks whether it is live. -/
def Connection.fault? (c : Connection) : Connection.Move → Option Fault
  | .subscribe _ => channelFault? c.settings.channelCapacity
  | _ => none

namespace Registry

/-- The settings of the stream whose tasks a move starts, if it starts any. -/
def starting? (r : Registry) : Move → Option StreamSettings
  | .step n .dialed =>
    match r.point? n with
    | some (.dialing _ settings _) => some settings
    | _ => none
  | _ => none

/-- The stream that a move subscribes to, if it does. -/
def subscribing? (r : Registry) : Move → Option Connection
  | .step n .go =>
    match r.point? n with
    | some (.looking (.subscribe address _)) =>
      if r.mayEnter n then (r.live? address).bind fun id => r.connections[id]? else none
    | _ => none
  | .stream id (.subscribe _) => r.connections[id]?
  | _ => none

/-- What a move of a registry fails with, if it does. -/
def fault? (r : Registry) (m : Move) : Option Fault :=
  ((r.starting? m).bind startFault?).or
    ((r.subscribing? m).bind fun c => channelFault? c.settings.channelCapacity)

end Registry

end Uplink.Stream
