import Uplink.Url.Domain
import Uplink.Url.Percent

/-! Hosts of URLs: domain names, IPv4 addresses in the forms that end in a number, IPv6 addresses
between brackets, and opaque names in URLs of other schemes. -/

namespace Uplink

/-- Why a text is no URL. -/
inductive Url.Error where
  | relativeWithoutBase
  | emptyHost
  | invalidPort
  | invalidDomain
  | invalidDomainCharacter
  | invalidIpv4
  | invalidIpv6
deriving DecidableEq

def Url.Error.message : Url.Error → String
  | .relativeWithoutBase => "relative URL without a base"
  | .emptyHost => "empty host"
  | .invalidPort => "invalid port number"
  | .invalidDomain => "invalid international domain name"
  | .invalidDomainCharacter => "invalid domain character"
  | .invalidIpv4 => "invalid IPv4 address"
  | .invalidIpv6 => "invalid IPv6 address"

inductive Url.Host where
  | domain (name : String)
  | ipv4 (address : Nat)
  /-- The eight 16-bit pieces of the address. -/
  | ipv6 (pieces : List Nat)
deriving DecidableEq

namespace Url

/-- A natural number in a base, if the text is one; an empty text is not. -/
def numeral? (base : Nat) (cs : List Char) : Option Nat :=
  if cs = [] then none
  else cs.foldl (fun n c => do
    let d ← Json.hexDigit? c
    if d < base then some ((← n) * base + d) else none) (some 0)

/-- A part of an IPv4 address: hexadecimal after `0x`, octal after `0`, else decimal. -/
def ipv4Part? (cs : List Char) : Option Nat :=
  match cs with
  | '0' :: 'x' :: rest => if rest = [] then some 0 else numeral? 16 rest
  | '0' :: 'X' :: rest => if rest = [] then some 0 else numeral? 16 rest
  | '0' :: c :: rest => numeral? 8 (c :: rest)
  | _ => numeral? 10 cs

/-- The parts of a name between full stops, where one at the end closes the last. -/
def nameParts (cs : List Char) : List (List Char) :=
  let parts := splitAt '.' cs
  if parts.length > 1 ∧ parts.getLast? = some [] then parts.dropLast else parts

/-- Whether a name must be read as an IPv4 address: its last part is a number. -/
def endsInNumber (cs : List Char) : Bool :=
  match (nameParts cs).getLast? with
  | some last => (last ≠ [] && last.all Char.isDigit) || (ipv4Part? last).isSome
  | none => false

/-- The IPv4 address of a name with at most four parts: the last part fills what the others
leave. -/
def ipv4? (cs : List Char) : Option Nat := do
  let parts := nameParts cs
  if 4 < parts.length then none
  else
    let numbers ← parts.mapM ipv4Part?
    let last ← numbers.getLast?
    let first := numbers.dropLast
    if first.all (· ≤ 255) && last < 1 <<< (8 * (4 - first.length)) then
      some (first.foldl (fun n part => n * 256 + part) 0 <<< (8 * (4 - first.length)) + last)
    else none

/-- Up to four hexadecimal digits as a number, and how many there are. -/
def ipv6Piece (acc count : Nat) : List Char → Nat × Nat × List Char
  | [] => (acc, count, [])
  | c :: cs =>
    match Json.hexDigit? c with
    | some d => if count < 4 then ipv6Piece (acc * 16 + d) (count + 1) cs else (acc, count, c :: cs)
    | none => (acc, count, c :: cs)

/-- The two last pieces of an IPv6 address written as four decimal numbers without leading
zeros. -/
def ipv6Tail? (cs : List Char) : Option (List Nat) := do
  let numbers ← (splitAt '.' cs).mapM fun part =>
    match part with
    | ['0'] => some 0
    | '0' :: _ => none
    | _ => if part.all Char.isDigit then (numeral? 10 part).filter (· ≤ 255) else none
  match numbers with
  | [a, b, c, d] => some [a * 256 + b, c * 256 + d]
  | _ => none

/-- The pieces of an IPv6 address: those read so far, how many of them precede the gap if one was
seen, and the text left. -/
def ipv6Pieces? : Nat → List Nat → Option Nat → List Char → Option (List Nat × Option Nat)
  | 0, _, _, _ => none
  | fuel + 1, pieces, gap, cs =>
    match cs with
    | [] => some (pieces, gap)
    | ':' :: rest =>
      if gap.isSome || 8 ≤ pieces.length then none
      else ipv6Pieces? fuel pieces (some pieces.length) rest
    | _ =>
      if 8 ≤ pieces.length then none
      else
        match ipv6Piece 0 0 cs with
        | (n, count, rest) =>
          match rest with
          | '.' :: _ =>
            if count = 0 ∨ 6 < pieces.length then none
            else (ipv6Tail? cs).map fun tail => (pieces ++ tail, gap)
          | ':' :: rest =>
            if count = 0 ∨ rest = [] then none else ipv6Pieces? fuel (pieces ++ [n]) gap rest
          | [] => if count = 0 then none else some (pieces ++ [n], gap)
          | _ => none

/-- The eight pieces of an IPv6 address; two colons in a row stand for the zeros that are missing,
which is one at least. -/
def ipv6? (cs : List Char) : Option (List Nat) := do
  let (pieces, gap) ← match cs with
    | ':' :: ':' :: rest => ipv6Pieces? (cs.length + 1) [] (some 0) rest
    | ':' :: _ => none
    | _ => ipv6Pieces? (cs.length + 1) [] none cs
  match gap with
  | none => if pieces.length = 8 then some pieces else none
  | some n =>
    if pieces.length < 8 then
      some (pieces.take n ++ List.replicate (8 - pieces.length) 0 ++ pieces.drop n)
    else none

/-- The host of a URL of a special scheme. -/
def specialHost (cs : List Char) : Except Error Host :=
  match cs with
  | '[' :: rest =>
    match rest.reverse with
    | ']' :: inner =>
      match ipv6? inner.reverse with
      | some pieces => .ok (.ipv6 pieces)
      | none => .error .invalidIpv6
    | _ => .error .invalidIpv6
  | _ =>
    match Text.Utf8.decode? (percentDecode cs) >>= asciiDomain? with
    | none => .error .invalidDomain
    | some [] => .error .emptyHost
    | some name =>
      if endsInNumber name then
        match ipv4? name with
        | some address => .ok (.ipv4 address)
        | none => .error .invalidIpv4
      else .ok (.domain (String.ofList name))

/-- Whether a character may stand in no opaque host. -/
def isForbiddenInHost (c : Char) : Bool :=
  c.toNat = 0 || " #/:<>?@[\\]^|\t\n\r".toList.contains c

/-- The host of a URL of any other scheme. -/
def opaqueHost (cs : List Char) : Except Error Host :=
  match cs with
  | '[' :: _ => specialHost cs
  | _ =>
    if cs.any isForbiddenInHost then .error .invalidDomainCharacter
    else .ok (.domain (String.ofList (percentEncode [] cs)))

/-- The first longest run of at least two zeros among the pieces from index `i` on, as its start and
length. -/
def longestZeros (i : Nat) : List Nat → Nat × Nat
  | [] => (i, 0)
  | n :: ns =>
    let run := ((n :: ns).takeWhile (· = 0)).length
    let later := longestZeros (i + 1) ns
    if later.2 ≤ run ∧ 2 ≤ run then (i, run) else later

/-- Pieces in hexadecimal digits with colons between them. -/
def pieceChars (ns : List Nat) : List Char :=
  (ns.map (Nat.toDigits 16)).intersperse [':'] |>.flatten

/-- The text of a host. -/
def Host.text : Host → String
  | .domain name => name
  | .ipv4 n =>
    ".".intercalate ([n >>> 24, n >>> 16 % 256, n >>> 8 % 256, n % 256].map Nat.repr)
  | .ipv6 ns =>
    let (start, run) := longestZeros 0 ns
    String.ofList ('[' :: (if run = 0 then pieceChars ns
      else pieceChars (ns.take start) ++ ':' :: ':' :: pieceChars (ns.drop (start + run))) ++ [']'])

end Url

end Uplink
