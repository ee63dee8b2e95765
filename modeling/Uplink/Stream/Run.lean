import Uplink.Stream.Step

/-! Runs of a stream and their histories. A schedule says which moves may come next; a run makes
moves that its schedule admits and adds what each of them notes to the history. -/

namespace Uplink.Stream

/-- How the steps of tasks may follow each other. -/
inductive Schedule where
  /-- Any task may take its next step at any time. -/
  | access
  /-- A task that runs goes on until it has to wait, and all others wait meanwhile. -/
  | await
  /-- As `await`, and time does not pass the end of a wait that a task has set. -/
  | punctual
deriving DecidableEq

namespace Connection

/-- When ending the stream gives up on a write. -/
def endingDeadline? (c : Connection) : Ending → Option Instant
  | .saying _ since | .shutting _ since => some (since + c.writeTimeout)
  | _ => none

/-- The end of the wait that a task has set at its point. -/
def deadline? (c : Connection) : Task → Option Instant
  | .reader =>
    match c.reader.point with
    | .ponging _ _ since | .discarding _ since => some (since + c.writeTimeout)
    | .resting due => some due
    | .dialing since => some (since + c.handshakeTimeout)
    | .ending e => c.endingDeadline? e
    | _ => none
  | .heartbeat =>
    match c.heartbeat.point with
    | .ticking due => some due
    | .pinging _ since _ => some (since + c.writeTimeout)
    | .ending e => c.endingDeadline? e
    | _ => none
  | .send n =>
    match c.sendPoint? n with
    | some (.writing _ _ since) => some (since + c.writeTimeout)
    | _ => none
  | .close n =>
    match c.closePoint? n with
    | some (.joining (_ :: _) since) => some (since + c.writeTimeout)
    | some (.ending e) => c.endingDeadline? e
    | _ => none

/-- Whether no task is between two waits. -/
def isSettled (c : Connection) : Bool := c.allTasks.all c.isQuiet

/-- Whether time may pass without passing the end of a wait. -/
def mayElapse (c : Connection) (nanos : Nat) : Bool :=
  c.allTasks.all fun t => (c.deadline? t).all fun due => c.now + nanos ≤ due

/-- Whether a schedule admits a move. -/
def admits (c : Connection) : Schedule → Move → Bool
  | .access, _ => true
  | _, .step t _ => c.allTasks.all fun u => u = t || c.isQuiet u
  | .punctual, .elapse n => c.isSettled && c.mayElapse n
  | _, _ => c.isSettled

/-- The history of a stream up to its first opening, after a dial that began at a given time. -/
def opening (c : Connection) (began : Instant) : List Event :=
  [.entered .connecting, .dialStarted began, .dialEnded c.now true, .installed 0, .heard c.wall,
    .entered .opened]

/-- A stream goes on from one state and history to another under a schedule. -/
inductive Reaches (schedule : Schedule) (c : Connection) (past : List Event) :
    Connection → List Event → Prop where
  | refl : Reaches schedule c past c past
  | move {c₁ c₂ : Connection} {history events : List Event} {m : Move} :
      Reaches schedule c past c₁ history → c₁.admits schedule m = true →
      c₁.next? m = some (c₂, events) → Reaches schedule c past c₂ (history ++ events)

/-- A run of a stream from its first opening on. -/
def Run (schedule : Schedule) (address : String) (settings : StreamSettings) (began now : Instant)
    (epoch : Int) (c : Connection) (history : List Event) : Prop :=
  began ≤ now ∧
    Reaches schedule (opened address settings now epoch)
      ((opened address settings now epoch).opening began) c history

end Connection

end Uplink.Stream
