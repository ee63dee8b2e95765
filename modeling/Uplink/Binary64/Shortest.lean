import Uplink.Binary64.Decimal

/-! The fewest decimal digits that read back as a given number, and their text. For each count of
digits the two neighbours of the number on that decimal grid are tried; the first count with a
neighbour that reads back wins, of two such neighbours the nearer, and of two equally near the even
one. -/

namespace Uplink.Binary64

/-- `digits * 10^exponent`. -/
structure Decimal where
  digits : Nat
  exponent : Int
deriving DecidableEq

/-- The numerator and the denominator of `u` units divided by `10^k`. -/
def scaled (u : Nat) (k : Int) : Nat × Nat :=
  if 0 ≤ k then (u, one * Nat.pow 10 k.toNat) else (u * Nat.pow 10 (-k).toNat, one)

/-- The exponent of the power of ten at or below `u` units, for every positive `u` on the grid. -/
def decimalExponent (u : Nat) : Int :=
  (digitCount (u * Nat.pow 10 324 / one) : Int) - 325

/-- Whether `c * 10^k` rounds to `u` units. -/
def readsBack (u c : Nat) (k : Int) : Bool :=
  match ofDecimal false c k with
  | .finite false v _ => v == u
  | _ => false

/-- The nearest multiple of `10^k` that reads back as `u` units, if one does. -/
def nearestMultiple? (u : Nat) (k : Int) : Option Decimal :=
  let (num, den) := scaled u k
  let low := num / den
  let distance := 2 * (num % den)
  match readsBack u low k, readsBack u (low + 1) k with
  | true, true =>
    if distance < den ∨ (distance = den ∧ low % 2 = 0) then some ⟨low, k⟩ else some ⟨low + 1, k⟩
  | true, false => some ⟨low, k⟩
  | false, true => some ⟨low + 1, k⟩
  | false, false => none

/-- The nearest decimal of `n` digits that reads back as `u` units, if one does. -/
def nearestDecimal? (u n : Nat) : Option Decimal :=
  nearestMultiple? u (decimalExponent u - (n - 1))

/-- The shortest decimal that reads back as `u` units; seventeen digits are always enough. -/
def shortest (u : Nat) : Decimal :=
  ((List.range' 1 17).findSome? (nearestDecimal? u)).getD ⟨u * Nat.pow 5 1074, -1074⟩

/-- The digits of a positive number without zeros at the end, and how many zeros were cut. -/
def trimZeros : Nat → Nat → Nat × Nat
  | 0, n => (n, 0)
  | fuel + 1, n =>
    if n ≠ 0 ∧ n % 10 = 0 then
      let (m, cut) := trimZeros fuel (n / 10)
      (m, cut + 1)
    else (n, 0)

/-- The text of a positive decimal: positional with a fraction while its scientific exponent lies
between -5 and 15, else scientific with a sign on the exponent. -/
def Decimal.text (d : Decimal) : String :=
  let (m, cut) := trimZeros (digitCount d.digits) d.digits
  let ds := Nat.toDigits 10 m
  let count := (ds.length : Int)
  let e := d.exponent + cut + count - 1
  if e < -5 ∨ 15 < e then
    let mantissa := match ds with
      | [] => []
      | [c] => [c]
      | c :: cs => c :: '.' :: cs
    String.ofList (mantissa ++ ['e', if e < 0 then '-' else '+'] ++ Nat.toDigits 10 e.natAbs)
  else if e < 0 then
    String.ofList ('0' :: '.' :: (List.replicate (-e - 1).toNat '0' ++ ds))
  else
    let whole := (e + 1).toNat
    if ds.length ≤ whole then
      String.ofList (ds ++ List.replicate (whole - ds.length) '0' ++ ['.', '0'])
    else String.ofList (ds.take whole ++ '.' :: ds.drop whole)

/-- The shortest text of a finite number; zero keeps its sign. -/
def text : Binary64 → String
  | .nan => "NaN"
  | .infinite s => if s then "-inf" else "inf"
  | .finite s u _ =>
    let magnitude := if u = 0 then "0.0" else (shortest u).text
    if s then "-" ++ magnitude else magnitude

end Uplink.Binary64
