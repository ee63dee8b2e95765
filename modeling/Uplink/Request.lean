import Uplink.Duration
import Uplink.Header
import Uplink.Variant

/-! Descriptions of single requests, built up field by field. -/

namespace Uplink

inductive Request.Body where
  | text (content : String)
  | bytes (content : List UInt8)
  | json (content : Variant)

structure Request where
  method : String
  url : String
  headers : KeyMap String
  body : Option Request.Body
  timeout : Option Duration
  /-- Whether a failed attempt may be repeated. -/
  retry : Bool
  rateLimitKey : Option String

namespace Request

/-- The request of a method to a URL, without fields and body, that may be repeated. -/
def ofMethod (method url : String) : Request :=
  ⟨method, url, ∅, none, none, true, none⟩

/-- Sets a header; one of the same spelling is replaced. -/
def withHeader (r : Request) (name value : String) : Request :=
  { r with headers := r.headers.insert name value }

def withText (r : Request) (content : String) : Request := { r with body := some (.text content) }

def withBytes (r : Request) (content : List UInt8) : Request :=
  { r with body := some (.bytes content) }

def withJson (r : Request) (content : Variant) : Request := { r with body := some (.json content) }

def withTimeout (r : Request) (timeout : Duration) : Request := { r with timeout := some timeout }

def withRetry (r : Request) (retry : Bool) : Request := { r with retry }

def withRateLimitKey (r : Request) (key : String) : Request :=
  { r with rateLimitKey := some key }

/-- Whether headers name a field, in any case. -/
def names (headers : List (String × String)) (name : String) : Bool :=
  headers.any fun h => Header.lower h.1 == Header.lower name

def hasHeader (r : Request) (name : String) : Bool := names r.headers.entries name

end Request

end Uplink
