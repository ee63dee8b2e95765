/-! Addresses of streams: a scheme, an authority and a path, as in `ws://host:port/path?query`. The
grammar is that of request targets, so that an address may lack a scheme, and many schemes pass that
no stream can be opened with. -/

namespace Uplink

structure StreamAddress where
  scheme : Option String
  /-- What stands between the scheme and the path; absent for a bare path. -/
  authority : Option String
  /-- The path and the query, without a fragment. -/
  target : String
deriving DecidableEq

namespace StreamAddress

/-- Why a text is no address. -/
inductive FormatError where
  | empty
  | tooLong
  | schemeTooLong
  | invalidCharacter
  | invalidFormat
  | invalidAuthority
deriving DecidableEq

def FormatError.message : FormatError → String
  | .empty => "empty string"
  | .tooLong => "uri too long"
  | .schemeTooLong => "scheme too long"
  | .invalidCharacter => "invalid uri character"
  | .invalidFormat => "invalid format"
  | .invalidAuthority => "invalid authority"

def isSchemeChar (c : Char) : Bool := c.isAlphanum || c = '+' || c = '-' || c = '.'

/-- Whether a character may stand in an authority outside of its delimiters. -/
def isAuthorityChar (c : Char) : Bool :=
  c.isAlphanum || "-._~!$&'()*+,;=".toList.contains c

/-- What has been seen of an authority: the colons since the last delimiter that ends them, the
brackets, whether a percent sign waits for one, and whether the last character was an at sign. -/
structure AuthorityScan where
  colons : Nat
  opened : Bool
  closed : Bool
  percent : Bool
  afterAt : Bool

/-- The authority in front of a text, up to a slash, a question mark or a number sign. -/
def scanAuthority (s : AuthorityScan) (read : List Char) :
    List Char → Except FormatError (List Char × List Char)
  | [] => finish s read []
  | c :: cs =>
    if c = '/' ∨ c = '?' ∨ c = '#' then finish s read (c :: cs)
    else
      let s' := { s with afterAt := false }
      if c = ':' then
        if 8 ≤ s.colons then .error .invalidAuthority
        else scanAuthority { s' with colons := s.colons + 1 } (c :: read) cs
      else if c = '[' then
        if s.percent || s.opened then .error .invalidAuthority
        else scanAuthority { s' with opened := true } (c :: read) cs
      else if c = ']' then
        if !s.opened || s.closed then .error .invalidAuthority
        else scanAuthority { s' with closed := true, colons := 0, percent := false } (c :: read) cs
      else if c = '@' then
        scanAuthority { s with colons := 0, percent := false, afterAt := true } (c :: read) cs
      else if c = '%' then scanAuthority { s' with percent := true } (c :: read) cs
      else if isAuthorityChar c then scanAuthority s' (c :: read) cs
      else .error .invalidCharacter
where
  finish (s : AuthorityScan) (read rest : List Char) : Except FormatError (List Char × List Char) :=
    if s.opened ≠ s.closed ∨ 1 < s.colons ∨ s.afterAt ∨ s.percent then .error .invalidAuthority
    else .ok (read.reverse, rest)

/-- The authority in front of a text, which must not be empty. -/
def authority? (cs : List Char) : Except FormatError (List Char × List Char) :=
  if cs = [] then .error .empty else scanAuthority ⟨0, false, false, false, false⟩ [] cs

/-- Whether a character may stand in a path. -/
def isPathChar (c : Char) : Bool :=
  c = '!' || (0x24 ≤ c.toNat && c.toNat ≤ 0x3b) || c = '=' || (0x40 ≤ c.toNat && c.toNat ≤ 0x5f) ||
    (0x61 ≤ c.toNat && c.toNat ≤ 0x7e) || 0x7f ≤ c.toNat || c = '"'

/-- Whether a character may stand in a query. -/
def isQueryChar (c : Char) : Bool :=
  c = '!' || (0x24 ≤ c.toNat && c.toNat ≤ 0x3b) || c = '=' || 0x3f ≤ c.toNat

/-- The path and query of an address; a fragment is cut off unread. -/
def target? (cs : List Char) : Except FormatError String :=
  let whole := cs.takeWhile (· ≠ '#')
  let path := whole.takeWhile (· ≠ '?')
  let query := (whole.dropWhile (· ≠ '?')).drop 1
  if path.all isPathChar && query.all isQueryChar then .ok (String.ofList whole)
  else .error .invalidCharacter

/-- The longest scheme. -/
def schemeLimit : Nat := 64

/-- The scheme in front of a text and what follows its colon and slashes. The schemes of requests
are read in any case and kept in small letters. -/
def scheme? (cs : List Char) : Except FormatError (Option String × List Char) :=
  let word := cs.takeWhile isSchemeChar
  match cs.dropWhile isSchemeChar with
  | ':' :: '/' :: '/' :: rest =>
    let lower := String.ofList (word.map Char.toLower)
    if lower = "http" ∨ lower = "https" then .ok (some lower, rest)
    else if cs.length ≤ 3 then .ok (none, cs)
    else if schemeLimit < word.length then .error .schemeTooLong
    else .ok (some (String.ofList word), rest)
  | _ => .ok (none, cs)

/-- The most bytes of an address. -/
def lengthLimit : Nat := 65534

/-- The address that a text is as a whole. -/
def parse (text : String) : Except FormatError StreamAddress :=
  if lengthLimit < text.utf8ByteSize then .error .tooLong
  else
    match text.toList with
    | [] => .error .empty
    | ['*'] => .ok ⟨none, none, "*"⟩
    | '/' :: cs => do .ok ⟨none, none, ← target? ('/' :: cs)⟩
    | [c] => do
      let (authority, rest) ← authority? [c]
      if rest = [] then .ok ⟨none, some (String.ofList authority), ""⟩
      else .error .invalidCharacter
    | cs => do
      let (scheme, rest) ← scheme? cs
      let (authority, rest) ← authority? rest
      if scheme = none then
        if rest = [] then .ok ⟨none, some (String.ofList authority), ""⟩ else .error .invalidFormat
      else if authority = [] then .error .invalidFormat
      else .ok ⟨scheme, some (String.ofList authority), ← target? rest⟩

/-- The number of a port, if the text is one of 16 bits; a plus sign may precede it. -/
def portNumber? (cs : List Char) : Option Nat :=
  let digits := match cs with
    | '+' :: ds => ds
    | ds => ds
  if digits ≠ [] ∧ digits.all Char.isDigit then
    let n := digits.foldl (fun n c => 10 * n + (c.toNat - 48)) 0
    if n < 0x10000 then some n else none
  else none

/-- The authority behind its first at sign, which ends what names a user. -/
def hostAndPort (a : StreamAddress) : Option String :=
  a.authority.map fun s =>
    if s.toList.contains '@' then String.ofList ((s.toList.dropWhile (· ≠ '@')).drop 1) else s

/-- The port to dial: the one given after the last colon, else that of the scheme. -/
def port? (a : StreamAddress) : Option Nat :=
  let given := a.authority.bind fun s =>
    if s.toList.contains ':' then portNumber? (s.toList.reverse.takeWhile (· ≠ ':')).reverse
    else none
  given.orElse fun _ =>
    if a.scheme = some "ws" then some 80
    else if a.scheme = some "wss" then some 443
    else none

end StreamAddress

end Uplink
