/-! UTF-8: the scalar values of a byte string, in which each longest part that starts no scalar
value stands for one gap (`pieces`). A strict reading has no gap (`decode?`); a lossy reading puts
the replacement character into each (`lossy`). -/

namespace Uplink.Text.Utf8

/-- The character with a code point, where the caller has checked that it is a scalar value. -/
def scalar (n : Nat) : Char := Char.ofNat n

def isTail (b : UInt8) : Bool := 0x80 ≤ b && b ≤ 0xbf

/-- How many bytes may follow the leading byte `b`, and the range of the first of them; a byte that
leads nothing has none. -/
def leading (b : UInt8) : Nat × UInt8 × UInt8 :=
  if b < 0xc2 then (0, 0, 0)
  else if b < 0xe0 then (1, 0x80, 0xbf)
  else if b = 0xe0 then (2, 0xa0, 0xbf)
  else if b = 0xed then (2, 0x80, 0x9f)
  else if b < 0xf0 then (2, 0x80, 0xbf)
  else if b = 0xf0 then (3, 0x90, 0xbf)
  else if b < 0xf4 then (3, 0x80, 0xbf)
  else if b = 0xf4 then (3, 0x80, 0x8f)
  else (0, 0, 0)

/-- Reads `more` continuation bytes after a prefix of value `n`: the scalar value they complete, or
none if one of them is missing, and the bytes left. -/
def continued (n : Nat) : Nat → List UInt8 → Option Char × List UInt8
  | 0, bs => (some (scalar n), bs)
  | _ + 1, [] => (none, [])
  | more + 1, b :: bs =>
    if isTail b then continued (n * 64 + b.toNat % 64) more bs else (none, b :: bs)

/-- The first scalar value, or none for a gap, and the bytes left. -/
def next (b : UInt8) (bs : List UInt8) : Option Char × List UInt8 :=
  if b < 0x80 then (some (scalar b.toNat), bs)
  else
    match leading b, bs with
    | (more + 1, low, high), c :: rest =>
      if low ≤ c ∧ c ≤ high then
        continued (b.toNat % (1 <<< (5 - more)) * 64 + c.toNat % 64) more rest
      else (none, bs)
    | _, _ => (none, bs)

theorem length_continued (n more : Nat) (bs : List UInt8) :
    (continued n more bs).2.length ≤ bs.length := by
  induction more generalizing n bs with
  | zero => exact Nat.le_refl _
  | succ more ih =>
    cases bs with
    | nil => exact Nat.le_refl _
    | cons b bs =>
      simp only [continued]
      split
      · exact Nat.le_succ_of_le (ih _ bs)
      · exact Nat.le_refl _

theorem length_next (b : UInt8) (bs : List UInt8) : (next b bs).2.length ≤ bs.length := by
  unfold next
  split
  · exact Nat.le_refl _
  · split
    · split
      · exact Nat.le_succ_of_le (length_continued _ _ _)
      · exact Nat.le_refl _
    · exact Nat.le_refl _

/-- The scalar values of a byte string, with `none` for each gap. -/
def pieces : List UInt8 → List (Option Char)
  | [] => []
  | b :: bs => (next b bs).1 :: pieces (next b bs).2
termination_by bs => bs.length
decreasing_by exact Nat.lt_succ_of_le (length_next b bs)

/-- The characters of a well-formed byte string. -/
def decode? (bs : List UInt8) : Option (List Char) := (pieces bs).mapM id

/-- The characters of a byte string, with U+FFFD for each gap. -/
def lossy (bs : List UInt8) : List Char := (pieces bs).map (·.getD '\ufffd')

/-- The bytes of a text. -/
def encode (cs : List Char) : List UInt8 := cs.flatMap String.utf8EncodeChar

end Uplink.Text.Utf8
