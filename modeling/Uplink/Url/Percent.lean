import Uplink.Json.Reader
import Uplink.Text.Utf8

/-! Percent-encoding of the parts of a URL: each part has its set of ASCII characters to encode, and
every other character is encoded byte by byte. -/

namespace Uplink.Url

/-- The percent-encoding of a byte. -/
def percentByte (b : UInt8) : List Char :=
  ['%', (Nat.digitChar (b.toNat / 16)).toUpper, (Nat.digitChar (b.toNat % 16)).toUpper]

def isControl (c : Char) : Bool := c.toNat < 0x20 || c.toNat = 0x7f

/-- Encodes controls, characters beyond ASCII, and those of a set. -/
def percentEncode (encoded : List Char) (cs : List Char) : List Char :=
  cs.flatMap fun c =>
    if isControl c || 0x7f < c.toNat || encoded.contains c then
      (String.utf8EncodeChar c).flatMap percentByte
    else [c]

def fragmentSet : List Char := [' ', '"', '<', '>', '\x60']

def pathSet : List Char := fragmentSet ++ ['#', '?', '\x7b', '\x7d']

def userSet : List Char := pathSet ++ ['/', ':', ';', '=', '@', '[', '\\', ']', '^', '|']

def querySet : List Char := [' ', '"', '#', '<', '>']

/-- The bytes of a text in which each percent sign with two hexadecimal digits stands for a byte. -/
def percentDecode : List Char → List UInt8
  | [] => []
  | '%' :: a :: b :: cs =>
    match Json.hexDigit? a, Json.hexDigit? b with
    | some x, some y => UInt8.ofNat (16 * x + y) :: percentDecode cs
    | _, _ => 0x25 :: percentDecode (a :: b :: cs)
  | c :: cs => String.utf8EncodeChar c ++ percentDecode cs
termination_by cs => cs.length

end Uplink.Url
