import Uplink.Binary64

/-! Decimal numbers and their nearest binary64 neighbours, and the digits and signs that numbers are
written with. `ofDecimal` rounds `m * 10^e` once. -/

namespace Uplink.Binary64

/-- The number of decimal digits of `n`; zero has one. -/
def digitCount (n : Nat) : Nat :=
  if n < 10 then 1 else digitCount (n / 10) + 1

/-- The number nearest to `m * 10^e`. Beyond `10^400` everything overflows, and below `10^-340`
everything rounds to zero, so that larger exponents need no power. -/
def ofDecimal (negative : Bool) (m : Nat) (e : Int) : Binary64 :=
  if m = 0 then .finite negative 0 onGrid_zero
  else if 0 ≤ e then
    if 400 < e then .infinite negative else ofQuotient negative (m * Nat.pow 10 e.toNat * one) 1
  else if digitCount m + 340 < (-e).toNat then .finite negative 0 onGrid_zero
  else ofQuotient negative (m * one) (Nat.pow 10 (-e).toNat)

/-- The value of a decimal digit. -/
def digit? (c : Char) : Option Nat :=
  if c.isDigit then some (c.toNat - '0'.toNat) else none

/-- A sign in front of a number: whether it is a minus, and what follows. -/
def takeSign : List Char → Bool × List Char
  | '-' :: cs => (true, cs)
  | '+' :: cs => (false, cs)
  | cs => (false, cs)

end Uplink.Binary64
