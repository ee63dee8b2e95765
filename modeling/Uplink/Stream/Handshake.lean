import Uplink.Header
import Uplink.KeyMap
import Uplink.StreamAddress

/-! The opening handshake of a stream: where to dial, and the fields of the request that asks the
far end to switch protocols. Setting a field replaces one of the same name in any case. -/

namespace Uplink.Stream

structure Handshake where
  address : StreamAddress
  /-- The host, with the port if the address gives one, as the far end is told. -/
  authority : String
  port : Nat
  /-- The fields by their names in small letters. -/
  fields : KeyMap String

namespace Handshake

/-- The fields that every handshake begins with. -/
def ownFields (authority key : String) : KeyMap String :=
  ((((KeyMap.insert ∅ "host" authority).insert "connection" "Upgrade").insert
    "upgrade" "websocket").insert "sec-websocket-version" "13").insert "sec-websocket-key" key

/-- Sets a caller's headers, in some order; fails with the first pair that is no field. -/
def setHeaders (fields : KeyMap String) :
    List (String × String) → Except String (KeyMap String)
  | [] => .ok fields
  | (name, value) :: rest =>
    match Header.problem? name value with
    | some problem => .error problem
    | none => setHeaders (fields.insert (Header.lower name) value) rest

/-- The handshake for an address, with a random key and a caller's headers in some order, or the
reason why none can begin. -/
def prepare (key text : String) (order : List (String × String)) : Except String Handshake :=
  match StreamAddress.parse text with
  | .error e => .error ("HTTP format error: " ++ e.message)
  | .ok address =>
    match address.hostAndPort with
    | none => .error "URL error: No host name in the URL"
    | some "" => .error "URL error: URL contains empty host name"
    | some authority => do
      let fields ← setHeaders (ownFields authority key) order
      match address.port? with
      | none => .error "URL error: URL scheme not supported"
      | some port => .ok ⟨address, authority, port, fields⟩

/-- Whether a handshake carries a header. -/
def carries (h : Handshake) (name value : String) : Bool :=
  h.fields.get? (Header.lower name) = some value

/-- What keeps a handshake from being written once the far end is connected, if anything does: the
scheme must be one of streams, and the fields must be plain ASCII. -/
def problem? (h : Handshake) : Option String :=
  if h.address.scheme ≠ some "ws" ∧ h.address.scheme ≠ some "wss" then
    some "URL error: URL scheme not supported"
  else if h.fields.entries.all fun e => e.2.toList.all fun c => c.toNat < 0x80 then none
  else some "UTF-8 encoding error"

/-- The reason given when no handshake is complete in time. -/
def lateMessage (timeoutMs : UInt64) : String :=
  "timed out after " ++ Nat.repr timeoutMs.toNat ++ "ms"

end Handshake

end Uplink.Stream
