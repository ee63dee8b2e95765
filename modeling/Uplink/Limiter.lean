import Uplink.Duration
import Uplink.KeyMap

/-! Admission per key: at most a ceiling of admissions within a sliding window. A limiter keeps the
times of admissions that may still count, oldest first; a call drops the oldest ones that have left
the window, and is admitted if fewer than the ceiling remain. -/

namespace Uplink

/-- A reading of the clock, in nanoseconds. -/
abbrev Instant := Nat

structure Limiter where
  window : Duration
  defaultCeiling : Nat
  ceilings : KeyMap Nat
  admissions : KeyMap (List Instant)
deriving DecidableEq

namespace Limiter

/-- A limiter that has admitted nothing. -/
def ofCeilings (defaultCeiling : Nat) (window : Duration) (ceilings : KeyMap Nat) : Limiter :=
  ⟨window, defaultCeiling, ceilings, ∅⟩

/-- Whether an admission at `t` counts at `now`. A time ahead of the clock counts as just now. -/
def counts (window : Duration) (now t : Instant) : Bool := now - t < window.nanos

/-- The ceiling of a key. -/
def ceiling (l : Limiter) (key : String) : Nat := (l.ceilings.get? key).getD l.defaultCeiling

def setCeiling (l : Limiter) (key : String) (ceiling : Nat) : Limiter :=
  { l with ceilings := l.ceilings.insert key ceiling }

/-- The admissions of a key that are still kept, oldest first. -/
def recorded (l : Limiter) (key : String) : List Instant := (l.admissions.get? key).getD []

/-- Drops admissions from the front while they no longer count. -/
def prune (window : Duration) (now : Instant) (times : List Instant) : List Instant :=
  times.dropWhile fun t => !counts window now t

/-- The indivisible part of a call that has read `ceiling` and the clock: drop what has left the
window, and record `now` if fewer than the ceiling remain. -/
def enter (l : Limiter) (key : String) (ceiling : Nat) (now : Instant) : Bool × Limiter :=
  let kept := prune l.window now (l.recorded key)
  if ceiling ≤ kept.length then (false, { l with admissions := l.admissions.insert key kept })
  else (true, { l with admissions := l.admissions.insert key (kept ++ [now]) })

/-- Whether a call at `now` is admitted, and the limiter after it. -/
def allow (l : Limiter) (key : String) (now : Instant) : Bool × Limiter :=
  l.enter key (l.ceiling key) now

/-- How many admissions of a key count at `now`. -/
def inWindow (l : Limiter) (key : String) (now : Instant) : Nat :=
  ((l.recorded key).filter (counts l.window now)).length

end Limiter

end Uplink
