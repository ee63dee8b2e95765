import Uplink.Binary64.Decimal
import Uplink.Json

/-! JSON number texts and their values. `NumberText.take?` reads the longest number in front of a
text as its digits; `NumberText.value?` gives the number. Digits are gathered into a 64-bit
significand, which is converted once and then scaled by rounded powers of ten, so that the last bit
of a long number can differ from the nearest one. -/

namespace Uplink.Json

/-- The digits of a number as they are written: those after the point, if any, and the exponent
with its sign, if there is one. -/
structure NumberText where
  negative : Bool
  whole : List Nat
  fraction : List Nat
  exponent : Option (Bool × List Nat)
deriving DecidableEq

/-- The digits in front of a text, and what follows them. -/
def takeDigits : List Char → List Nat × List Char
  | [] => ([], [])
  | c :: cs =>
    match Binary64.digit? c with
    | some d => let (ds, rest) := takeDigits cs; (d :: ds, rest)
    | none => ([], c :: cs)

/-- The fraction of a number: a point needs a digit after it. -/
def takeFraction? : List Char → Option (List Nat × List Char)
  | '.' :: cs =>
    match takeDigits cs with
    | ([], _) => none
    | found => some found
  | cs => some ([], cs)

/-- The exponent of a number: the letter needs a digit after it and an optional sign. -/
def takeExponent? : List Char → Option (Option (Bool × List Nat) × List Char)
  | [] => some (none, [])
  | c :: cs =>
    if c = 'e' ∨ c = 'E' then
      let (negative, cs) := Binary64.takeSign cs
      match takeDigits cs with
      | ([], _) => none
      | (ds, rest) => some (some (negative, ds), rest)
    else some (none, c :: cs)

/-- The number in front of a text and what follows it. A zero stands alone before the point. -/
def NumberText.take? (cs : List Char) : Option (NumberText × List Char) :=
  let (negative, cs) := match cs with
    | '-' :: cs => (true, cs)
    | cs => (false, cs)
  match takeDigits cs with
  | ([], _) => none
  | (0 :: _ :: _, _) => none
  | (whole, cs) => do
    let (fraction, cs) ← takeFraction? cs
    let (exponent, cs) ← takeExponent? cs
    some (⟨negative, whole, fraction, exponent⟩, cs)

/-- A significand below `2^64` and the power of ten it is to be scaled by. -/
structure Scaled where
  significand : Nat
  exponent : Int
deriving DecidableEq

/-- Gathers the digits before the point: from the first that overflows 64 bits on, a digit only
raises the exponent. -/
def Scaled.whole (s : Scaled) : List Nat → Scaled
  | [] => s
  | d :: ds =>
    let n := s.significand * 10 + d
    if s.exponent = 0 ∧ n < 0x10000000000000000 then Scaled.whole ⟨n, 0⟩ ds
    else Scaled.whole ⟨s.significand, s.exponent + 1⟩ ds

/-- Gathers the digits after the point: from the first that overflows 64 bits on, digits are
ignored. -/
def Scaled.fraction (s : Scaled) : List Nat → Scaled
  | [] => s
  | d :: ds =>
    let n := s.significand * 10 + d
    if n < 0x10000000000000000 then Scaled.fraction ⟨n, s.exponent - 1⟩ ds else s

/-- The power of ten nearest to `10^n`. -/
def powerOfTen (n : Nat) : Binary64 := .ofNat (Nat.pow 10 n)

/-- `x` times `10^e` by multiplying or dividing by rounded powers of ten up to `10^308`; nothing if
the product overflows. -/
def scale? (x : Binary64) (e : Int) : Option Binary64 :=
  if 0 ≤ e then
    if e ≤ 308 then
      let y := x * powerOfTen e.toNat
      if y.isFinite then some y else none
    else if x.isZero then some x else none
  else if -308 ≤ e then some (x / powerOfTen (-e).toNat)
  else if x.isZero then some x
  else scale? (x / powerOfTen 308) (e + 308)
termination_by (-e).toNat
decreasing_by omega

/-- The natural number written by digits. -/
def ofDigits (ds : List Nat) : Nat := ds.foldl (fun n d => 10 * n + d) 0

/-- A finite number of the given sign as a JSON number. -/
def Number.signed? (negative : Bool) (x : Binary64) : Option Number :=
  let y := if negative then -x else x
  if h : y.isFinite = true then some (.real y h) else none

/-- An integer text: an integer of 64 bits stays one, and so does not the negative zero. -/
def Number.ofInteger? (negative : Bool) (n : Nat) : Option Number :=
  if negative then
    if h : 0 < n ∧ n ≤ 0x8000000000000000 then
      some (.integer (-(n : Int)) ⟨by have := h.2; omega, by omega⟩)
    else Number.signed? true (.ofNat n)
  else if h : n < 0x10000000000000000 then some (.integer n ⟨by omega, by omega⟩)
  else none

/-- The value of a number text; nothing if it is too large for any finite number. An exponent beyond
31 bits makes a zero of the sign, unless it is positive and the significand is not zero. -/
def NumberText.value? (t : NumberText) : Option Number :=
  let s := Scaled.whole ⟨0, 0⟩ t.whole
  if s.exponent = 0 ∧ t.fraction = [] ∧ t.exponent = none then
    Number.ofInteger? t.negative s.significand
  else
    let s := s.fraction t.fraction
    match t.exponent with
    | none => (scale? (.ofNat s.significand) s.exponent).bind (Number.signed? t.negative)
    | some (below, ds) =>
      let n := ofDigits ds
      if n < 0x80000000 then
        (scale? (.ofNat s.significand) (if below then s.exponent - n else s.exponent + n)).bind
          (Number.signed? t.negative)
      else if s.significand ≠ 0 ∧ !below then none
      else Number.signed? t.negative .zero

end Uplink.Json
