import Uplink.Stream.Registry.Step
import Uplink.Stream.Run

/-! Runs of a registry and their histories, under the schedules of streams. A call that waits for
its own call on a stream goes on as soon as that one has returned; one that closes several streams
begins to close them all before anything else happens. -/

namespace Uplink.Stream

namespace Connection

/-- Whether a task is a call to close that has not begun. -/
def isFresh (c : Connection) : Task → Bool
  | .close n => match c.closes[n]? with
    | some ⟨.taking, false, _⟩ => true
    | _ => false
  | _ => false

/-- Whether no task is between two waits, but for calls to close that have not begun. -/
def isSettledSoFar (c : Connection) : Bool := c.allTasks.all fun t => c.isQuiet t || c.isFresh t

/-- Whether a move is a step of a task that is between two waits. -/
def isRunning (c : Connection) : Move → Bool
  | .step t _ => !c.isQuiet t
  | _ => false

end Connection

namespace Registry

/-- Whether the calls on streams that a call waits for have returned. -/
def isResumed (r : Registry) (n : Nat) : Bool :=
  match r.point? n with
  | some (.replacing ..) | some (.sending ..) | some (.closing _) => !r.waits n
  | _ => false

/-- Whether a call neither runs nor is between two waits. -/
def isQuietCall (r : Registry) (n : Nat) : Bool :=
  ((r.calls[n]?).map Thread.parked).getD true && !r.isResumed n

/-- Whether no call, other than perhaps one, is between two waits. -/
def othersQuiet (r : Registry) (except : Option Nat) : Bool :=
  (List.range r.calls.length).all fun n => some n = except || r.isQuietCall n

/-- Whether all tasks of all streams, other than perhaps those of one, wait. -/
def streamsSettled (r : Registry) (except : Option ConnectionId) : Bool :=
  (List.range r.connections.length).all fun id =>
    some id = except || (r.connections[id]?).all (·.isSettled)

/-- Whether all tasks of all streams, other than perhaps those of one, wait or are calls to close
that have not begun. -/
def streamsSettledSoFar (r : Registry) (except : Option ConnectionId) : Bool :=
  (List.range r.connections.length).all fun id =>
    some id = except || (r.connections[id]?).all (·.isSettledSoFar)

/-- Whether no call and no task of a stream is between two waits. -/
def isSettled (r : Registry) : Bool := r.othersQuiet none && r.streamsSettled none

/-- When a call that dials gives up. -/
def deadline? (r : Registry) (n : Nat) : Option Instant :=
  match r.point? n with
  | some (.dialing _ settings since) =>
    some (since + (Duration.ofMillis settings.handshakeTimeoutMs).nanos)
  | _ => none

/-- Whether time may pass without passing the end of a wait. -/
def mayElapse (r : Registry) (nanos : Nat) : Bool :=
  ((List.range r.calls.length).all fun n => (r.deadline? n).all fun due => r.now + nanos ≤ due) &&
    r.connections.all (·.mayElapse nanos)

/-- Whether a schedule admits a move. -/
def admits (r : Registry) : Schedule → Move → Bool
  | .access, _ => true
  | _, .step n _ => r.othersQuiet (some n) && r.streamsSettled none
  | schedule, .stream id m =>
    r.othersQuiet none &&
      (r.streamsSettled (some id) ||
        r.streamsSettledSoFar (some id) && (r.connections[id]?).any (·.isRunning m)) &&
      (r.connections[id]?).any (·.admits schedule m)
  | .punctual, .elapse n => r.isSettled && r.mayElapse n
  | _, _ => r.isSettled

/-- A registry goes on from one state and history to another under a schedule. -/
inductive Reaches (schedule : Schedule) (r : Registry) (past : List Event) :
    Registry → List Event → Prop where
  | refl : Reaches schedule r past r past
  | move {r₁ r₂ : Registry} {history events : List Event} {m : Move} :
      Reaches schedule r past r₁ history → r₁.admits schedule m = true →
      r₁.next? m = some (r₂, events) → Reaches schedule r past r₂ (history ++ events)

/-- A run of a registry that is empty at first. -/
def Run (schedule : Schedule) (epoch : Int) (r : Registry) (history : List Event) : Prop :=
  Reaches schedule (empty epoch) [] r history

end Registry

end Uplink.Stream
