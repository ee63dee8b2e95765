import Uplink.Error
import Uplink.Limiter
import Uplink.RetryPolicy
import Uplink.Text.Blank

/-! The settings of a network: for calls, retries, admission, streams and logging. `validate` finds
the first value that nothing can run with. -/

namespace Uplink

structure HttpSettings where
  timeoutMs : UInt64 := 30000
  poolMaxIdlePerHost : UInt64 := 10
  poolIdleTimeoutMs : UInt64 := 90000
  userAgent : Option String := none
  proxy : Option String := none
deriving DecidableEq

structure RetrySettings where
  maxAttempts : UInt32 := 3
  baseDelayMs : UInt64 := 1000
  maxDelayMs : UInt64 := 30000
  backoffFactor : Binary64 := .ofNat 2
deriving DecidableEq

structure RateLimitSettings where
  defaultLimit : UInt64 := 100
  windowMs : UInt64 := 60000
  limits : KeyMap UInt64 := ∅
deriving DecidableEq

structure StreamSettings where
  headers : KeyMap String := ∅
  /-- Whether to dial again when the socket is lost. -/
  reconnect : Bool := true
  handshakeTimeoutMs : UInt64 := 10000
  /-- Zero stands for no pings. -/
  pingIntervalMs : UInt64 := 30000
  reconnectDelayMs : UInt64 := 5000
  writeTimeoutMs : UInt64 := 10000
  /-- How many messages a subscription holds before new ones are dropped. -/
  channelCapacity : UInt64 := 100
deriving DecidableEq

structure LoggingSettings where
  level : String := "info"
  format : String := "pretty"
deriving DecidableEq

structure Settings where
  http : HttpSettings := {}
  retry : RetrySettings := {}
  rateLimit : RateLimitSettings := {}
  stream : StreamSettings := {}
  logging : LoggingSettings := {}
deriving DecidableEq

namespace RetrySettings

def policy (s : RetrySettings) : RetryPolicy :=
  ⟨s.maxAttempts, .ofMillis s.baseDelayMs, .ofMillis s.maxDelayMs, s.backoffFactor⟩

end RetrySettings

namespace RateLimitSettings

/-- A limiter with the default ceiling and the window, and the ceilings of the given keys. -/
def limiter (s : RateLimitSettings) : Limiter :=
  s.limits.entries.foldl (fun l e => l.setCeiling e.1 e.2.toNat)
    (.ofCeilings s.defaultLimit.toNat (.ofMillis s.windowMs) ∅)

end RateLimitSettings

namespace StreamSettings

def withHeader (s : StreamSettings) (name value : String) : StreamSettings :=
  { s with headers := s.headers.insert name value }

def withReconnect (s : StreamSettings) (reconnect : Bool) : StreamSettings := { s with reconnect }

/-- The time between pings, unless there are none. -/
def pingInterval? (s : StreamSettings) : Option Duration :=
  if s.pingIntervalMs = 0 then none else some (.ofMillis s.pingIntervalMs)

/-- Finds the first value that no connection can run with. -/
def validate (s : StreamSettings) : Except Error Unit :=
  if s.channelCapacity = 0 then
    .error (.config (.invalidValue "stream.channel_capacity" "must be > 0"))
  else if s.handshakeTimeoutMs = 0 then
    .error (.config (.invalidValue "stream.handshake_timeout_ms" "must be > 0"))
  else if s.writeTimeoutMs = 0 then
    .error (.config (.invalidValue "stream.write_timeout_ms" "must be > 0"))
  else .ok ()

end StreamSettings

namespace Settings

/-- Checks the proxy: it must not be blank, and it must be a URL. -/
def validateProxy (proxy : String) : Except Error Unit :=
  if Text.trim proxy = "" then .error (.config (.missingField "http.proxy"))
  else
    match Url.parse proxy with
    | .ok _ => .ok ()
    | .error e => .error (.config (.invalidValue "http.proxy" e.message))

/-- Finds the first value that a network cannot run with. -/
def validate (s : Settings) : Except Error Unit := do
  if s.http.timeoutMs = 0 then
    .error (.config (.invalidValue "http.timeout_ms" "must be > 0"))
  if let some proxy := s.http.proxy then validateProxy proxy
  if !(s.retry.backoffFactor.isFinite && Binary64.zero.le s.retry.backoffFactor) then
    .error (.config (.invalidValue "retry.backoff_factor" "must be a finite, non-negative number"))
  if s.retry.maxDelayMs < s.retry.baseDelayMs then
    .error (.config (.invalidValue "retry.base_delay_ms" "must be <= retry.max_delay_ms"))
  if s.rateLimit.windowMs = 0 then
    .error (.config (.invalidValue "rate_limit.window_ms" "must be > 0"))
  s.stream.validate

/-- Puts a proxy in place of the one that is set; an empty one changes nothing. -/
def overrideProxy (s : Settings) (proxy : Option String) : Settings :=
  match proxy with
  | none => s
  | some "" => s
  | some proxy => { s with http := { s.http with proxy := some proxy } }

end Settings

end Uplink
