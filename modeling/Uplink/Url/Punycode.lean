/-! Punycode: labels of any characters written with ASCII letters, digits and hyphens. The
characters beyond ASCII stand as differences of code point and position, in digits of base 36 whose
thresholds adapt. -/

namespace Uplink.Url.Punycode

/-- The character of a digit below 36. -/
def digitChar (d : Nat) : Char := Char.ofNat (if d < 26 then 97 + d else 22 + d)

/-- The digit of a character in small letters. -/
def digit? (c : Char) : Option Nat :=
  if 'a' ≤ c ∧ c ≤ 'z' then some (c.toNat - 97)
  else if c.isDigit then some (c.toNat - 22)
  else none

/-- The threshold of the digit at place `k`. -/
def threshold (k bias : Nat) : Nat := if k ≤ bias then 1 else min (k - bias) 26

theorem threshold_bounds (k bias : Nat) : 1 ≤ threshold k bias ∧ threshold k bias ≤ 26 := by
  unfold threshold; split <;> omega

/-- Divides a difference by 35 until it is at most 455, and counts 36 for each time. -/
def shrink (delta k : Nat) : Nat × Nat :=
  if 455 < delta then shrink (delta / 35) (k + 36) else (delta, k)
termination_by delta
decreasing_by omega

/-- The bias after a difference, where `count` characters are placed. -/
def adapt (delta count : Nat) (first : Bool) : Nat :=
  let delta := if first then delta / 700 else delta / 2
  let (delta, k) := shrink (delta + delta / count) 0
  k + 36 * delta / (delta + 38)

/-- A difference in digits, least significant first. -/
def digits (bias k q : Nat) : List Char :=
  let t := threshold k bias
  if q < t then [digitChar q]
  else digitChar (t + (q - t) % (36 - t)) :: digits bias (k + 36) ((q - t) / (36 - t))
termination_by q
decreasing_by
  have := threshold_bounds k bias
  exact Nat.lt_of_le_of_lt (Nat.div_le_self _ _) (by omega)

/-- A label while it is written. -/
structure Writing where
  out : List Char
  delta : Nat
  bias : Nat
  placed : Nat

/-- Passes over a character of the label while those of code point `n` are placed. -/
def Writing.pass (basic n : Nat) (w : Writing) (c : Char) : Writing :=
  if c.toNat < n then { w with delta := w.delta + 1 }
  else if c.toNat = n then
    { out := w.out ++ digits w.bias 36 w.delta
      delta := 0
      bias := adapt w.delta (w.placed + 1) (w.placed = basic)
      placed := w.placed + 1 }
  else w

/-- Places the characters of each code point in turn, in increasing order from `n` on. -/
def Writing.place (label : List Char) (basic : Nat) : List Nat → Nat → Writing → Writing
  | [], _, w => w
  | m :: ms, n, w =>
    let w := { w with delta := w.delta + (m - n) * (w.placed + 1) }
    let w := label.foldl (Writing.pass basic m) w
    Writing.place label basic ms (m + 1) { w with delta := w.delta + 1 }

/-- A label in ASCII, without the mark that it is one. -/
def encode (label : List Char) : List Char :=
  let basic := label.filter (·.toNat < 0x80)
  let others := ((label.map Char.toNat).filter (0x80 ≤ ·)).mergeSort.eraseDups
  let head := if basic = [] then [] else basic ++ ['-']
  head ++ (Writing.place label basic.length others 0x80 ⟨[], 0, 72, basic.length⟩).out

/-- The difference in front of a text, added to `i`, and the text after it. -/
def difference? (bias : Nat) : Nat → Nat → Nat → List Char → Option (Nat × List Char)
  | _, _, _, [] => none
  | k, weight, i, c :: cs => do
    let d ← digit? c
    let t := threshold k bias
    if d < t then some (i + d * weight, cs)
    else difference? bias (k + 36) (weight * (36 - t)) (i + d * weight) cs

/-- Inserts the characters that the rest of a label describes into those placed. The fuel bounds
their number. -/
def insertRest? : Nat → List Char → Nat → Nat → Nat → List Char → Option (List Char)
  | _, out, _, _, _, [] => some out
  | 0, _, _, _, _, _ => none
  | fuel + 1, out, n, i, bias, cs => do
    let (j, rest) ← difference? bias 36 1 i cs
    let count := out.length + 1
    let n := n + j / count
    if n.isValidChar then
      insertRest? fuel (out.insertIdx (j % count) (Char.ofNat n)) n (j % count + 1)
        (adapt (j - i) count (i = 0)) rest
    else none

/-- The label of which a text in small letters is the ASCII form. -/
def decode? (cs : List Char) : Option (List Char) :=
  let tail := (cs.reverse.takeWhile (· ≠ '-')).reverse
  let basic := (cs.take (cs.length - tail.length)).dropLast
  insertRest? cs.length basic 0x80 0 72 tail

end Uplink.Url.Punycode
