import Uplink.Stream.Registry.Run

/-! Runs of a registry that make every move possible at once, while time stands still: a network
says how dials end, and far ends take each frame as it is written. -/

namespace Uplink.Stream

/-- Whether the far end of a handshake accepts it, or why not. -/
abbrev Network := Handshake → Except String Unit

/-- How the dial of an address ends. -/
def Network.dial (network : Network) (address : String) (settings : StreamSettings) :
    Except String Unit := do
  let h ← Handshake.prepare "" address settings.headers.entries
  network h
  match h.problem? with
  | some problem => .error problem
  | none => .ok ()

/-- Opens a stream outside of any registry: whether that is possible, or why not. -/
def Network.connect (network : Network) (address : String) (settings : StreamSettings) :
    Except Error Unit :=
  match Registry.dialProblem? address settings with
  | some e => .error e
  | none => (network.dial address settings).mapError (.handshake address)

namespace Connection

/-- What the task of a stream can be told at once, unless it has to wait. -/
def signal? (network : Network) (c : Connection) (t : Task) : Option Signal :=
  let answered : Signal := match network.dial c.address c.settings with
    | .ok () => .dialed
    | .error _ => .dialFailed
  let possible := [.go, .written, answered].find? fun sig => (c.step? t sig).isSome
  possible.orElse fun _ => if c.isQuiet t then none else some .suspend

/-- The moves that the tasks of a stream can make at once. -/
def moves (network : Network) (c : Connection) : List Move :=
  c.allTasks.filterMap fun t =>
    if (c.reap? t).isSome then some (.reap t) else (c.signal? network t).map (.step t)

end Connection

namespace Registry

/-- What a call can be told at once, unless it has to wait. -/
def signal? (network : Network) (r : Registry) (n : Nat) : Option Signal :=
  match r.point? n with
  | some (.dialing address settings _) =>
    match network.dial address settings with
    | .ok () => some .dialed
    | .error reason => some (.dialFailed reason)
  | _ =>
    if (r.callStep n .go).isSome then some .go
    else if r.isQuietCall n then none
    else some .suspend

/-- The moves that calls and streams can make at once. -/
def moves (network : Network) (r : Registry) : List Move :=
  (List.range r.calls.length).filterMap (fun n => (r.signal? network n).map (.step n)) ++
    (List.range r.connections.length).flatMap fun id =>
      (((r.connections[id]?).map (·.moves network)).getD []).map (.stream id)

/-- Makes moves that are possible at once, up to a number of them; what is between two waits goes
first. -/
def settleWithin (network : Network) : Nat → Registry → Registry
  | 0, r => r
  | n + 1, r =>
    match (r.moves network).find? (r.admits .await) with
    | none => r
    | some m =>
      match r.next? m with
      | none => r
      | some (r, _) => settleWithin network n r

/-- More moves than any number of calls and streams makes at one time, unless a stream dials without
rest. -/
def settleLimit (r : Registry) : Nat := 100 * (r.calls.length + r.connections.length + 1)

/-- Makes every move that is possible at once. -/
def settle (network : Network) (r : Registry) : Registry := r.settleWithin network r.settleLimit

/-- What a call has answered. -/
def answer? (r : Registry) (n : Nat) : Option Answer :=
  match r.point? n with
  | some (.returned answer) => some answer
  | _ => none

/-- Makes a call and every move that is then possible; the call is answered, or still waits. -/
def ask (network : Network) (r : Registry) (call : Call) : Option Answer × Registry :=
  match r.next? (.call call) with
  | none => (none, r)
  | some (asked, _) =>
    let settled := asked.settle network
    (settled.answer? r.calls.length, settled)

end Registry

end Uplink.Stream
