import Uplink.Call
import Uplink.Outgoing
import Uplink.Stream.Registry.Settle

/-! A network without a way out: no far end can be reached. -/

namespace Uplink

/-- No dial gets through. -/
def Stream.Network.offline : Stream.Network := fun _ =>
  .error "IO error: Network is unreachable (os error 101)"

/-- No request gets through. -/
def Reply.offline (out : Outgoing) : Reply :=
  .failed ("error sending request for url (" ++ out.url.text ++ ")")

end Uplink
