/-! The life of a stream: it is connecting until its first socket opens, then open, or reconnecting
while the socket is lost, and at last closing and closed. -/

namespace Uplink.Stream

inductive State where
  | connecting
  | opened
  | reconnecting
  | closing
  | closed
deriving DecidableEq

/-- The state of a stream that callers may still use. -/
def State.isLive : State → Bool
  | .connecting | .opened | .reconnecting => true
  | .closing | .closed => false

def State.name : State → String
  | .connecting => "connecting"
  | .opened => "open"
  | .reconnecting => "reconnecting"
  | .closing => "closing"
  | .closed => "closed"

end Uplink.Stream
