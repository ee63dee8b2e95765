import Uplink.Limiter

/-! Calls to a limiter that overlap. A call first reads the ceiling of its key and the clock, and
enters the limiter later, in one step; other calls may do either in between. -/

namespace Uplink.Limiter

/-- What a call has read before it enters the limiter. -/
structure Reading where
  key : String
  ceiling : Nat
  time : Instant
deriving DecidableEq

/-- A limiter that is shared, the clock, and the calls that have not entered yet. -/
structure Shared where
  limiter : Limiter
  now : Instant
  readings : List Reading
deriving DecidableEq

/-- A call's decision, at the time that the call had read. -/
structure Decision where
  key : String
  time : Instant
  admitted : Bool
deriving DecidableEq

/-- What may happen next to a limiter that is shared. -/
inductive Move where
  /-- A call reads the ceiling of its key and the clock. -/
  | read (key : String)
  /-- The call with the `n`th of the readings enters. -/
  | enter (n : Nat)
  | setCeiling (key : String) (ceiling : Nat)
  | elapse (nanos : Nat)

namespace Shared

/-- A limiter that no call is under way to. -/
def ofLimiter (limiter : Limiter) (now : Instant) : Shared := ⟨limiter, now, []⟩

/-- The state after a move, and the decision that it made; nothing if the move is not possible. -/
def next? (s : Shared) : Move → Option (Shared × List Decision)
  | .read key =>
    some ({ s with readings := s.readings ++ [⟨key, s.limiter.ceiling key, s.now⟩] }, [])
  | .enter n =>
    s.readings[n]?.map fun r =>
      let (admitted, limiter) := s.limiter.enter r.key r.ceiling r.time
      ({ s with limiter, readings := s.readings.eraseIdx n }, [⟨r.key, r.time, admitted⟩])
  | .setCeiling key ceiling =>
    some ({ s with limiter := s.limiter.setCeiling key ceiling }, [])
  | .elapse n => some ({ s with now := s.now + n }, [])

/-- From one state to another by some moves, with the decisions made, first one first. -/
inductive Reaches (s : Shared) : List Move → Shared → List Decision → Prop where
  | refl : Reaches s [] s []
  | move {s₁ s₂ : Shared} {moves : List Move} {history decisions : List Decision} {m : Move} :
      Reaches s moves s₁ history → s₁.next? m = some (s₂, decisions) →
      Reaches s (moves ++ [m]) s₂ (history ++ decisions)

end Shared

/-- The times of all admissions of a key, in the order in which the calls entered. -/
def admitted (history : List Decision) (key : String) : List Instant :=
  (history.filter fun d => d.key = key && d.admitted).map Decision.time

end Uplink.Limiter
