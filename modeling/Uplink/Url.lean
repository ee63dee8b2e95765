import Uplink.Url.Host

/-! Absolute URLs. `parse` reads a text as a browser would: blanks around it are cut, tabs and line
ends inside are dropped, and the parts are brought into normal form. `text` writes the normal
form. -/

namespace Uplink

structure Url.Authority where
  user : String
  password : Option String
  host : Url.Host
  /-- The port, unless it is that of the scheme. -/
  port : Option Nat
deriving DecidableEq

/-- A path is a list of segments, or a single opaque text in a URL without any slash after its
scheme. -/
inductive Url.Path where
  | segments (names : List String)
  | whole (text : String)
deriving DecidableEq

structure Url where
  /-- The scheme in small letters. -/
  scheme : String
  authority : Option Url.Authority
  path : Url.Path
  query : Option String
  fragment : Option String
deriving DecidableEq

namespace Url

/-- The schemes whose URLs have a host and a path, and their ports. -/
def defaultPort? (scheme : String) : Option Nat :=
  match scheme with
  | "http" | "ws" => some 80
  | "https" | "wss" => some 443
  | "ftp" => some 21
  | _ => none

/-- In URLs of special schemes a backslash is a slash. -/
def isSpecial (scheme : String) : Bool := (defaultPort? scheme).isSome || scheme = "file"

/-- The text that is read: without blanks around it, and without tabs and line ends. -/
def cleaned (text : String) : List Char :=
  let trim (cs : List Char) := cs.dropWhile (·.toNat ≤ 0x20)
  ((trim (trim text.toList).reverse).reverse).filter fun c => !(c = '\t' || c = '\n' || c = '\r')

def isSchemeChar (c : Char) : Bool := c.isAlphanum || c = '+' || c = '-' || c = '.'

/-- The scheme of a text, and what follows its colon. -/
def takeScheme? (cs : List Char) : Option (String × List Char) :=
  match cs with
  | [] => none
  | c :: _ =>
    if c.isAlpha then
      match cs.dropWhile isSchemeChar with
      | ':' :: rest => some (String.ofList ((cs.takeWhile isSchemeChar).map Char.toLower), rest)
      | _ => none
    else none

def isSlash (special : Bool) (c : Char) : Bool := c = '/' || special && c = '\\'

/-- Whether a character ends the authority. -/
def endsAuthority (special : Bool) (c : Char) : Bool := isSlash special c || c = '?' || c = '#'

/-- What names the user, before the last at sign of an authority, and the rest. -/
def splitUser (authority : List Char) : Option (List Char) × List Char :=
  if authority.contains '@' then
    let rest := (authority.reverse.takeWhile (· ≠ '@')).reverse
    (some (authority.take (authority.length - rest.length - 1)), rest)
  else (none, authority)

/-- The user and the password, encoded; an empty password is none. -/
def userParts (cs : List Char) : String × Option String :=
  let user := cs.takeWhile (· ≠ ':')
  let password := (cs.dropWhile (· ≠ ':')).drop 1
  (String.ofList (percentEncode userSet user),
    if password = [] then none else some (String.ofList (percentEncode userSet password)))

/-- The host in front of an authority, up to a colon outside of brackets, and what follows. -/
def splitHost (inBrackets : Bool) : List Char → List Char × List Char
  | [] => ([], [])
  | c :: cs =>
    if c = ':' ∧ !inBrackets then ([], c :: cs)
    else
      let inside := if c = '[' then true else if c = ']' then false else inBrackets
      let (host, rest) := splitHost inside cs
      (c :: host, rest)

/-- The port written by digits, unless it is that of the scheme. -/
def readPort (scheme : String) (cs : List Char) : Except Error (Option Nat) :=
  if cs = [] then .ok none
  else
    match (numeral? 10 cs).filter (· < 0x10000) with
    | none => .error .invalidPort
    | some n => .ok (if defaultPort? scheme = some n then none else some n)

/-- The authority of a URL, other than of a file. `followed` says whether anything stands after it.
The host may be empty only in URLs of other schemes, without a user and a port. -/
def readAuthority (scheme : String) (followed : Bool) (cs : List Char) :
    Except Error Authority := do
  let special := isSpecial scheme
  let (userText, rest) := splitUser cs
  let (user, password) := userParts (userText.getD [])
  let (hostText, after) := splitHost false rest
  let named := user ≠ "" || password.isSome || userText = some [] && followed
  if hostText = [] ∧ (special ∨ after ≠ [] ∨ named) then .error .emptyHost
  else
    let host ← if special then specialHost hostText else opaqueHost hostText
    let port ← readPort scheme (after.drop 1)
    .ok ⟨user, password, host, port⟩

/-- Whether a segment stands for the directory it lies in. -/
def isSingleDot (cs : List Char) : Bool :=
  String.ofList (cs.map Char.toLower) ∈ [".", "%2e"]

/-- Whether a segment stands for the directory above. -/
def isDoubleDot (cs : List Char) : Bool :=
  String.ofList (cs.map Char.toLower) ∈ ["..", ".%2e", "%2e.", "%2e%2e"]

/-- Whether a segment is a drive letter. -/
def isDrive : List Char → Bool
  | [c, d] => c.isAlpha && (d = ':' || d = '|')
  | _ => false

/-- The path without its last segment; the drive of a file stays. -/
def shorten (scheme : String) (path : List (List Char)) : List (List Char) :=
  match path with
  | [drive] => if scheme = "file" ∧ isDrive drive then path else []
  | _ => path.dropLast

/-- The segments of a path, from those between its slashes. Dots are resolved; a path that ends in
dots ends in an empty segment. -/
def resolve (scheme : String) (path : List (List Char)) : List (List Char) → List (List Char)
  | [] => path
  | raw :: rest =>
    let segment := percentEncode pathSet raw
    let path' :=
      if isDoubleDot segment then
        let path := shorten scheme path
        if rest = [] then path ++ [[]] else path
      else if isSingleDot segment then if rest = [] then path ++ [[]] else path
      else
        match segment with
        | [c, _] =>
          if scheme = "file" ∧ path = [] ∧ isDrive segment then [[c, ':']] else path ++ [segment]
        | _ => path ++ [segment]
    resolve scheme path' rest

/-- The path of a URL from its text, in which a first slash opens the first segment. -/
def readPath (scheme : String) (cs : List Char) : Path :=
  let special := isSpecial scheme
  let cs := if special then cs.map fun c => if c = '\\' then '/' else c else cs
  let cs := match cs with
    | '/' :: rest => some rest
    | [] => if special then some [] else none
    | cs => some cs
  match cs with
  | none => .segments []
  | some cs => .segments ((resolve scheme [] (splitAt '/' cs)).map String.ofList)

/-- The text before a question mark or a number sign, the query and the fragment. -/
def splitTail (scheme : String) (cs : List Char) : List Char × Option String × Option String :=
  let body := cs.takeWhile (· ≠ '#')
  let fragment := match cs.dropWhile (· ≠ '#') with
    | [] => none
    | _ :: cs => some (String.ofList (percentEncode fragmentSet cs))
  let set := if isSpecial scheme then '\'' :: querySet else querySet
  let query := match body.dropWhile (· ≠ '?') with
    | [] => none
    | _ :: cs => some (String.ofList (percentEncode set cs))
  (body.takeWhile (· ≠ '?'), query, fragment)

/-- The URL with an authority in front of what follows the scheme and its slashes. -/
def withAuthority (scheme : String) (cs : List Char) : Except Error Url := do
  let (body, query, fragment) := splitTail scheme cs
  let special := isSpecial scheme
  let rest := body.dropWhile (!endsAuthority special ·)
  let followed := rest ≠ [] || query.isSome || fragment.isSome
  let authority ← readAuthority scheme followed (body.takeWhile (!endsAuthority special ·))
  .ok ⟨scheme, some authority, readPath scheme rest, query, fragment⟩

/-- The URL of a file. A host may stand between two slashes and the path, unless it is a drive
letter; this machine needs no name. -/
def file (cs : List Char) : Except Error Url := do
  let (body, query, fragment) := splitTail "file" cs
  let build (host : Host) (rest : List Char) : Url :=
    ⟨"file", some ⟨"", none, host, none⟩, readPath "file" rest, query, fragment⟩
  match body with
  | a :: b :: rest =>
    if isSlash true a ∧ isSlash true b then
      let hostText := rest.takeWhile (!isSlash true ·)
      let after := rest.dropWhile (!isSlash true ·)
      if hostText = [] ∨ isDrive hostText then
        .ok (build (.domain "") (if hostText = [] then after else rest))
      else
        let host ← specialHost hostText
        .ok (build (if host = .domain "localhost" then .domain "" else host) after)
    else .ok (build (.domain "") body)
  | _ => .ok (build (.domain "") body)

/-- The URL that a text is. -/
def parse (text : String) : Except Error Url :=
  match takeScheme? (cleaned text) with
  | none => .error .relativeWithoutBase
  | some (scheme, cs) =>
    if scheme = "file" then file cs
    else if isSpecial scheme then withAuthority scheme (cs.dropWhile (isSlash true))
    else
      match cs with
      | '/' :: '/' :: rest => withAuthority scheme rest
      | '/' :: _ =>
        let (body, query, fragment) := splitTail scheme cs
        .ok ⟨scheme, none, readPath scheme body, query, fragment⟩
      | _ =>
        let (body, query, fragment) := splitTail scheme cs
        .ok ⟨scheme, none, .whole (String.ofList (percentEncode [] body)), query, fragment⟩

/-- Whether the URL names a host. -/
def hasHost (u : Url) : Bool :=
  match u.authority with
  | some a => a.host ≠ .domain ""
  | none => false

/-- The text of an authority. -/
def Authority.text (a : Authority) : String :=
  let credentials := match a.password with
    | some password => a.user ++ ":" ++ password ++ "@"
    | none => if a.user = "" then "" else a.user ++ "@"
  credentials ++ a.host.text ++ (a.port.map fun n => ":" ++ Nat.repr n).getD ""

/-- The text of a path; without an authority, a path that starts with an empty segment has a dot in
front of it. -/
def Path.text (hasAuthority : Bool) : Path → String
  | .whole text => text
  | .segments names =>
    (if !hasAuthority && names.head? = some "" && 1 < names.length then "/." else "") ++
      String.join (names.map ("/" ++ ·))

/-- The path and the query, as a request names them. -/
def target (u : Url) : String :=
  u.path.text u.authority.isSome ++ (u.query.map ("?" ++ ·)).getD ""

/-- The normal form of the URL. -/
def text (u : Url) : String :=
  u.scheme ++ ":" ++ (u.authority.map fun a => "//" ++ a.text).getD "" ++ u.target ++
    (u.fragment.map ("#" ++ ·)).getD ""

/-- The text that percent-encoding stands for, if it is UTF-8. -/
def decoded? (text : String) : Option String :=
  (Text.Utf8.decode? (percentDecode text.toList)).map String.ofList

/-- The user and the password that the URL gives, decoded, if it gives any. -/
def credentials? (u : Url) : Option (String × Option String) := do
  let a ← u.authority
  let user ← decoded? a.user
  let password := a.password.bind decoded?
  if user ≠ "" ∨ password.isSome then some (user, password) else none

/-- The URL without credentials, if it gives any that can be used. -/
def withoutCredentials (u : Url) : Url :=
  match u.credentials?, u.authority with
  | some _, some a => { u with authority := some { a with user := "", password := none } }
  | _, _ => u

end Url

end Uplink
