import Uplink.Url

/-! What can go wrong, by its cause, and the wording of each. -/

namespace Uplink

inductive ConfigError where
  | missingField (field : String)
  | invalidValue (field reason : String)
  /-- The file could not be read as text, for the given cause. -/
  | unreadable (cause : String)
  /-- The text is no document, or a document of another form. -/
  | parse
deriving DecidableEq

inductive Error where
  | rateLimited (key : String)
  | network (url text : String)
  /-- A response with a status of 400 or more. -/
  | http (url : String) (status : Nat) (body : String)
  | connectionNotFound (address : String)
  | handshake (address reason : String)
  | invalidRequest (text : String)
  | config (error : ConfigError)
  | json
  | url (error : Url.Error)
deriving DecidableEq

def ConfigError.message : ConfigError → String
  | .missingField field => "missing required field: " ++ field
  | .invalidValue field reason => "invalid value for " ++ field ++ ": " ++ reason
  | .unreadable cause => "failed to read config file: " ++ cause
  | .parse => "failed to parse config"

namespace Error

def message : Error → String
  | .rateLimited key => "rate limit exceeded for " ++ key
  | .network target text => "network error for " ++ target ++ ": " ++ text
  | .http target status body => "HTTP " ++ Nat.repr status ++ " from " ++ target ++ ": " ++ body
  | .connectionNotFound address => "no connection tracked for " ++ address
  | .handshake address reason => "handshake with " ++ address ++ " failed: " ++ reason
  | .invalidRequest text => "invalid request: " ++ text
  | .config error => error.message
  | .json => "JSON error"
  | .url error => "URL parse error: " ++ error.message

/-- Only failures of the network and responses that report an error are worth another attempt. -/
def isRetryable : Error → Bool
  | .network .. | .http .. => true
  | _ => false

end Error

end Uplink
