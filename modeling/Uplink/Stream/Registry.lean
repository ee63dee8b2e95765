import Uplink.Stream.Connection

/-! A registry of streams by address, and the calls on it. Calls take turns at what is tracked; a
call that has to dial keeps its turn until the dial has ended, so that callers who race for one
address share one stream. -/

namespace Uplink.Stream

/-- The number of a stream, in the order in which streams were opened. -/
abbrev ConnectionId := Nat

/-- What a call to send fails with, if it does. -/
def SendResult.error? (address : String) : SendResult → Option Error
  | .sent => none
  | .notFound => some (.connectionNotFound address)
  | .notConnected => some (.network address "stream is not connected")
  | .failed => some (.network address "stream is broken")
  | .timedOut => some (.network address "write timed out")

namespace Registry

inductive Call where
  /-- Finds the live stream of an address, or opens one. -/
  | connect (address : String) (settings : StreamSettings)
  | get (address : String)
  | subscribe (address topic : String)
  | send (address : String) (message : Message)
  | close (address : String)
  | closeAll
deriving DecidableEq

/-- Whether a call only looks at what is tracked when its turn first comes. -/
def Call.reads : Call → Bool
  | .connect .. | .get _ | .subscribe .. | .send .. => true
  | .close _ | .closeAll => false

inductive Answer where
  | connected (id : ConnectionId)
  | found (id : Option ConnectionId)
  | subscribed (id : ConnectionId) (channel : ChannelId)
  | sent (id : ConnectionId) (result : SendResult)
  | closed
  | failed (error : Error)
deriving DecidableEq

inductive Point where
  /-- Waits for its turn to look at what is tracked. -/
  | looking (call : Call)
  /-- Found nothing live; waits for a turn that it will keep. -/
  | claiming (address : String) (settings : StreamSettings)
  /-- Closes a stream that is live no more, and keeps its turn. -/
  | replacing (address : String) (settings : StreamSettings) (stale : ConnectionId)
    (closing : CallId)
  /-- Dials, and keeps its turn. -/
  | dialing (address : String) (settings : StreamSettings) (since : Instant)
  | sending (id : ConnectionId) (sending : CallId)
  | closing (closings : List (ConnectionId × CallId))
  | returned (answer : Answer)
deriving DecidableEq

end Registry

structure Registry where
  /-- Every stream that was ever opened. -/
  connections : List Connection
  tracked : KeyMap ConnectionId
  /-- The turn at what is tracked. -/
  turn : Turn Nat
  /-- Every call that was ever made; its place is the caller's number. -/
  calls : List (Thread Registry.Point)
  now : Instant
  /-- The wall clock, in milliseconds, when the clock read zero. -/
  epoch : Int

namespace Registry

/-- No stream, at a clock that reads zero. -/
def empty (epoch : Int) : Registry := ⟨[], ∅, .free, [], 0, epoch⟩

def isLive (r : Registry) (id : ConnectionId) : Bool := (r.connections[id]?).any (·.isLive)

/-- The tracked stream of an address, if it is live. -/
def live? (r : Registry) (address : String) : Option ConnectionId :=
  (r.tracked.get? address).filter r.isLive

def addresses (r : Registry) : List String := r.tracked.keys

/-- The point of a call. -/
def point? (r : Registry) (n : Nat) : Option Point := (r.calls[n]?).map Thread.point

end Registry

end Uplink.Stream
