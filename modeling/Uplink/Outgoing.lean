import Uplink.Error
import Uplink.Request
import Uplink.StreamAddress

/-! Requests as they are handed to the transport. `ofRequest` parses the URL, checks the headers in
the order in which they are enumerated, and encodes the body; `problem?` names what keeps a request
from being sent at all. -/

namespace Uplink

structure Outgoing where
  method : String
  /-- The URL without credentials. -/
  url : Url
  /-- The user and the password of the URL. -/
  credentials : Option (String × Option String)
  /-- The headers of the caller with names in small letters, and the type of a structured body. -/
  headers : List (String × String)
  body : List UInt8
  timeout : Option Duration

namespace Outgoing

/-- The first text that is no header, if there is one, with what is wrong. -/
def headerProblem? (headers : List (String × String)) : Option String :=
  headers.findSome? fun h => Header.problem? h.1 h.2

/-- The headers that a request sets: those of the caller, and the type of a structured body unless
the caller names one in any case. -/
def callerHeaders (headers : List (String × String)) (body : Option Request.Body) :
    List (String × String) :=
  let own := headers.map fun h => (Header.lower h.1, h.2)
  match body with
  | some (.json _) =>
    if Request.names headers "content-type" then own
    else own ++ [("content-type", "application/json")]
  | _ => own

/-- The bytes of a body; no body has none. -/
def bodyBytes : Option Request.Body → List UInt8
  | some (.text t) => Text.Utf8.encode t.toList
  | some (.bytes bs) => bs
  | some (.json v) => Text.Utf8.encode v.chars
  | none => []

/-- A request made ready, with its headers in some order. -/
def ofRequest (order : List (String × String)) (r : Request) : Except Error Outgoing :=
  match Url.parse r.url with
  | .error e => .error (.url e)
  | .ok url =>
    match headerProblem? order with
    | some text => .error (.invalidRequest text)
    | none => .ok {
        method := r.method
        url := url.withoutCredentials
        credentials := url.credentials?
        headers := callerHeaders order r.body
        body := bodyBytes r.body
        timeout := r.timeout }

/-- Whether the transport can send to a URL: over plain or secure HTTP, to a host. -/
def isSendable (url : Url) : Bool :=
  (url.scheme = "http" || url.scheme = "https") && url.hasHost &&
    (StreamAddress.parse url.text).isOk

/-- What keeps the request from being sent, if anything does. -/
def problem? (o : Outgoing) : Option String :=
  if isSendable o.url then none else some ("builder error for url (" ++ o.url.text ++ ")")

end Outgoing

end Uplink
