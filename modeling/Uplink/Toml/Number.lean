import Uplink.Binary64.Decimal
import Uplink.Toml
import Uplink.Toml.Text

/-! TOML integers, floats, dates and times. Each reader gives the value in front of a text and what
follows it, or nothing. -/

namespace Uplink.Toml

/-- The digits of a base in front of a text as their values, most significant first. One underscore
may stand between two digits. -/
def baseDigits? (digit? : Char → Option Nat) : List Char → Option (List Nat × List Char)
  | [] => none
  | c :: cs =>
    match digit? c with
    | none => none
    | some d =>
      match cs with
      | '_' :: rest => (baseDigits? digit? rest).map fun (ds, rest) => (d :: ds, rest)
      | rest =>
        match baseDigits? digit? rest with
        | some (ds, rest) => some (d :: ds, rest)
        | none => some ([d], rest)

def digitBelow? (base : Nat) (c : Char) : Option Nat :=
  (Json.hexDigit? c).filter (· < base)

def decimalDigits? : List Char → Option (List Nat × List Char) := baseDigits? (digitBelow? 10)

/-- The whole part of a decimal number: a zero stands alone. -/
def whole? (cs : List Char) : Option (List Nat × List Char) :=
  match cs with
  | '0' :: rest => some ([0], rest)
  | _ => decimalDigits? cs

def ofDigits (base : Nat) (ds : List Nat) : Nat := ds.foldl (fun n d => base * n + d) 0

/-- An integer of 64 bits. -/
def bounded? (i : Int) : Option Int :=
  if -0x8000000000000000 ≤ i ∧ i < 0x8000000000000000 then some i else none

/-- An integer: decimal with an optional sign, or hexadecimal, octal or binary without. -/
def integer? (cs : List Char) : Option (Int × List Char) :=
  let inBase (base : Nat) (cs : List Char) : Option (Int × List Char) := do
    let (ds, rest) ← baseDigits? (digitBelow? base) cs
    some (← bounded? (ofDigits base ds), rest)
  match cs with
  | '0' :: 'x' :: cs => inBase 16 cs
  | '0' :: 'o' :: cs => inBase 8 cs
  | '0' :: 'b' :: cs => inBase 2 cs
  | _ => do
    let (negative, cs) := Binary64.takeSign cs
    let (ds, rest) ← whole? cs
    let n := ofDigits 10 ds
    some (← bounded? (if negative then -n else n), rest)

/-- The exponent of a float, if there is one. -/
def floatExponent? (cs : List Char) : Option (Int × List Char) :=
  match cs with
  | [] => none
  | c :: cs =>
    if c = 'e' ∨ c = 'E' then do
      let (negative, cs) := Binary64.takeSign cs
      let (ds, rest) ← decimalDigits? cs
      let n := ofDigits 10 ds
      some (if negative then -n else n, rest)
    else none

/-- A float has a fraction or an exponent. One beyond the largest number is refused, but below the
least it is taken as negative infinity. -/
def float? (cs : List Char) : Option (Binary64 × List Char) := do
  let (negative, cs) := Binary64.takeSign cs
  let (ds, cs) ← whole? cs
  let (x, rest) ← match cs with
    | '.' :: cs => do
      let (fs, cs) ← decimalDigits? cs
      let (e, cs) := (floatExponent? cs).getD (0, cs)
      some (Binary64.ofDecimal negative (ofDigits 10 (ds ++ fs)) (e - fs.length), cs)
    | cs => do
      let (e, cs) ← floatExponent? cs
      some (Binary64.ofDecimal negative (ofDigits 10 ds) e, cs)
  if x = .infinite false then none else some (x, rest)

/-- The names of the numbers that are not finite, with an optional sign. -/
def specialFloat? (cs : List Char) : Option (Binary64 × List Char) :=
  let (negative, cs) := Binary64.takeSign cs
  match cs with
  | 'i' :: 'n' :: 'f' :: cs => some (.infinite negative, cs)
  | 'n' :: 'a' :: 'n' :: cs => some (.nan, cs)
  | _ => none

/-- Exactly `n` decimal digits as a number. -/
def fixed? (acc : Nat) : Nat → List Char → Option (Nat × List Char)
  | 0, cs => some (acc, cs)
  | n + 1, c :: cs => do fixed? (acc * 10 + (← Binary64.digit? c)) n cs
  | _ + 1, [] => none

/-- Two digits as a number within bounds. -/
def pair? (low high : Nat) (cs : List Char) : Option (Nat × List Char) := do
  let (n, cs) ← fixed? 0 2 cs
  if low ≤ n ∧ n ≤ high then some (n, cs) else none

def daysInMonth (year month : Nat) : Nat :=
  if month = 2 then
    if year % 4 = 0 ∧ (year % 100 ≠ 0 ∨ year % 400 = 0) then 29 else 28
  else if month = 4 ∨ month = 6 ∨ month = 9 ∨ month = 11 then 30
  else 31

/-- The character `c` in front of a text is skipped. -/
def expect? (c : Char) : List Char → Option (List Char)
  | d :: cs => if d = c then some cs else none
  | [] => none

/-- A number with at least `width` digits. -/
def padded (width n : Nat) : List Char :=
  let ds := Nat.toDigits 10 n
  List.replicate (width - ds.length) '0' ++ ds

/-- A date `YYYY-MM-DD` that exists, and its text. -/
def date? (cs : List Char) : Option (List Char × List Char) := do
  let (year, cs) ← fixed? 0 4 cs
  let (month, cs) ← pair? 1 12 (← expect? '-' cs)
  let (day, cs) ← pair? 1 31 (← expect? '-' cs)
  if day ≤ daysInMonth year month then
    some (padded 4 year ++ '-' :: (padded 2 month ++ '-' :: padded 2 day), cs)
  else none

/-- The fraction of a second to nine digits, without zeros at its end, and its text. -/
def secondFraction (cs : List Char) : List Char × List Char :=
  match cs with
  | '.' :: rest =>
    match rest.takeWhile Char.isDigit with
    | [] => ([], cs)
    | ds =>
      let kept := ((ds.take 9).reverse.dropWhile (· = '0')).reverse
      (if kept = [] then [] else '.' :: kept, rest.dropWhile Char.isDigit)
  | _ => ([], cs)

/-- A time of day `HH:MM:SS` with an optional fraction, and its text. -/
def time? (cs : List Char) : Option (List Char × List Char) := do
  let (hour, cs) ← pair? 0 23 cs
  let (minute, cs) ← pair? 0 59 (← expect? ':' cs)
  let (second, cs) ← pair? 0 60 (← expect? ':' cs)
  let (fraction, cs) := secondFraction cs
  some (padded 2 hour ++ ':' :: (padded 2 minute ++ ':' :: (padded 2 second ++ fraction)), cs)

/-- The offset of a time from the meridian, and its text. -/
def offset? : List Char → Option (List Char × List Char)
  | [] => none
  | c :: cs =>
    if c = 'Z' ∨ c = 'z' then some (['Z'], cs)
    else if c = '+' ∨ c = '-' then do
      let (hour, cs) ← pair? 0 23 cs
      let (minute, cs) ← pair? 0 59 (← expect? ':' cs)
      let sign := if c = '-' ∧ (hour ≠ 0 ∨ minute ≠ 0) then '-' else '+'
      some (sign :: (padded 2 hour ++ ':' :: padded 2 minute), cs)
    else none

/-- A date, a time, or both with an optional offset. -/
def datetime? (cs : List Char) : Option (List Char × List Char) :=
  match date? cs with
  | none => time? cs
  | some (date, cs) =>
    let timed := match cs with
      | c :: rest => if c = 'T' ∨ c = 't' ∨ c = ' ' then time? rest else none
      | [] => none
    match timed with
    | none => some (date, cs)
    | some (time, cs) =>
      match offset? cs with
      | some (offset, cs) => some (date ++ 'T' :: (time ++ offset), cs)
      | none => some (date ++ 'T' :: time, cs)

/-- The number, date or time in front of a text. -/
def scalar? (cs : List Char) : Option (Toml × List Char) :=
  match datetime? cs with
  | some (text, cs) => some (.datetime (String.ofList text), cs)
  | none =>
    match (float? cs).orElse fun _ => specialFloat? cs with
    | some (x, cs) => some (.float x, cs)
    | none => (integer? cs).map fun (i, cs) => (.integer i, cs)

end Uplink.Toml
