import Uplink.Binary64

/-! Spans of time in whole nanoseconds, below `2^64` seconds. `toSeconds` and `ofSeconds?` convert
from and to seconds as a binary64 number. -/

namespace Uplink

structure Duration where
  nanos : Nat
  inRange : nanos < 0x10000000000000000 * 1000000000
deriving DecidableEq

namespace Duration

def zero : Duration := ⟨0, by decide⟩

instance : Inhabited Duration := ⟨zero⟩

instance : LE Duration := ⟨fun a b => a.nanos ≤ b.nanos⟩
instance : LT Duration := ⟨fun a b => a.nanos < b.nanos⟩
instance (a b : Duration) : Decidable (a ≤ b) := inferInstanceAs (Decidable (a.nanos ≤ b.nanos))
instance (a b : Duration) : Decidable (a < b) := inferInstanceAs (Decidable (a.nanos < b.nanos))

def ofMillis (ms : UInt64) : Duration :=
  ⟨ms.toNat * 1000000, by have := ms.toNat_lt; omega⟩

/-- The least number of whole milliseconds that covers the span. -/
def millisUp (d : Duration) : Nat := (d.nanos + 999999) / 1000000

/-- The span in seconds: whole seconds and the fraction are converted apart and added. -/
def toSeconds (d : Duration) : Binary64 :=
  .ofNat (d.nanos / 1000000000) + .ofNat (d.nanos % 1000000000) / .ofNat 1000000000

/-- The span nearest to a number of seconds, a tie going to the even nanosecond; nothing for a
negative number and for `2^64` seconds or more. -/
def ofSeconds? (x : Binary64) : Option Duration :=
  if x.isFinite ∧ Binary64.zero.le x then
    if h : x.toNanos < 0x10000000000000000 * 1000000000 then some ⟨x.toNanos, h⟩ else none
  else none

end Duration

end Uplink
