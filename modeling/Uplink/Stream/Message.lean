import Uplink.Variant

/-! Messages for the far end of a stream: text or bytes. -/

namespace Uplink.Stream

inductive Message where
  | text (content : String)
  | binary (content : List UInt8)
deriving DecidableEq

namespace Message

/-- A document is sent as its text. -/
def ofJson (j : Json) : Message := .text j.text

/-- A value is sent as the text of its document. -/
def ofVariant (v : Variant) : Message := ofJson v.toJson

/-- The bytes of the message's frame. -/
def payload : Message → List UInt8
  | .text s => Text.Utf8.encode s.toList
  | .binary bs => bs

end Message

end Uplink.Stream
