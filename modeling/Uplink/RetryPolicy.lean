import Uplink.Duration

/-! The schedule of retries: how many there may be, and how long to wait before each. -/

namespace Uplink

structure RetryPolicy where
  /-- Retries after the first attempt. -/
  maxAttempts : UInt32
  baseDelay : Duration
  maxDelay : Duration
  backoffFactor : Binary64
deriving DecidableEq

namespace RetryPolicy

/-- One attempt, and no waiting. -/
def none : RetryPolicy := ⟨0, .zero, .zero, .zero⟩

def default : RetryPolicy := ⟨3, .ofMillis 1000, .ofMillis 30000, .ofNat 2⟩

instance : Inhabited RetryPolicy := ⟨default⟩

/-- The seconds before an attempt if there were no limit: the base times the factor times the
number of the attempt, each product rounded. -/
def seconds (p : RetryPolicy) (attempt : UInt32) : Binary64 :=
  p.baseDelay.toSeconds * p.backoffFactor * .ofNat attempt.toNat

/-- The wait before an attempt: none at all for seconds that are not finite or not positive, and at
most the limit; nothing if the seconds below the limit are no duration. -/
def delay? (p : RetryPolicy) (attempt : UInt32) : Option Duration :=
  let s := p.seconds attempt
  if !s.isFinite || s.le .zero then some .zero
  else if p.maxDelay.toSeconds.le s then some p.maxDelay
  else Duration.ofSeconds? s

/-- The wait before an attempt. -/
def delay (p : RetryPolicy) (attempt : UInt32) : Duration := (p.delay? attempt).getD p.maxDelay

end RetryPolicy

end Uplink
