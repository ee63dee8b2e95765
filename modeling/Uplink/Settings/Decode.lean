import Uplink.Settings
import Uplink.Toml.Reader

/-! Settings from documents. A section is a table of fields, or an array of them in the order of
their declaration; a field left out has its default, and fields of other names are ignored. A value
of another type makes the whole document invalid. -/

namespace Uplink

namespace Toml

/-- The entries of a table. A date or time counts as one with a single entry. -/
def entries? : Toml → Option (List (String × Toml))
  | .table entries => some entries
  | .datetime text => some [("$__toml_private_datetime", .string text)]
  | _ => none

/-- The field of a section by its name or place: nothing if the section is no section, and `none`
inside if the field is left out. -/
def field? (t : Toml) (name : String) (place : Nat) : Option (Option Toml) :=
  match t with
  | .array items => some items[place]?
  | _ => t.entries?.map (findEntry name)

/-- A field read by `read`, or its default. -/
def fieldOr {α : Type} (t : Toml) (name : String) (place : Nat) (read : Toml → Option α)
    (default : α) : Option α := do
  match ← t.field? name place with
  | none => some default
  | some value => read value

/-- An integer below a bound. -/
def asNatural? (bound : Nat) : Toml → Option Nat
  | .integer i => if 0 ≤ i ∧ i < bound then some i.toNat else none
  | _ => none

def asWord64? (t : Toml) : Option UInt64 := (t.asNatural? 0x10000000000000000).map UInt64.ofNat

def asWord32? (t : Toml) : Option UInt32 := (t.asNatural? 0x100000000).map UInt32.ofNat

/-- A number; an integer is rounded. -/
def asNumber? : Toml → Option Binary64
  | .float x => some x
  | .integer i => some (.ofInt i)
  | _ => none

def asString? : Toml → Option String
  | .string s => some s
  | _ => none

def asBoolean? : Toml → Option Bool
  | .boolean b => some b
  | _ => none

/-- A table whose values are all read by `read`. -/
def asMap? {α : Type} (read : Toml → Option α) (t : Toml) : Option (KeyMap α) := do
  let entries ← t.entries?
  let pairs ← entries.mapM fun (k, v) => (read v).map (k, ·)
  some (.ofList pairs)

end Toml

def HttpSettings.ofToml? (t : Toml) : Option HttpSettings := do
  let d : HttpSettings := {}
  some {
    timeoutMs := ← t.fieldOr "timeout_ms" 0 (·.asWord64?) d.timeoutMs
    poolMaxIdlePerHost := ← t.fieldOr "pool_max_idle_per_host" 1 (·.asWord64?) d.poolMaxIdlePerHost
    poolIdleTimeoutMs := ← t.fieldOr "pool_idle_timeout_ms" 2 (·.asWord64?) d.poolIdleTimeoutMs
    userAgent := ← t.fieldOr "user_agent" 3 (·.asString?.map some) d.userAgent
    proxy := ← t.fieldOr "proxy" 4 (·.asString?.map some) d.proxy }

def RetrySettings.ofToml? (t : Toml) : Option RetrySettings := do
  let d : RetrySettings := {}
  some {
    maxAttempts := ← t.fieldOr "max_attempts" 0 (·.asWord32?) d.maxAttempts
    baseDelayMs := ← t.fieldOr "base_delay_ms" 1 (·.asWord64?) d.baseDelayMs
    maxDelayMs := ← t.fieldOr "max_delay_ms" 2 (·.asWord64?) d.maxDelayMs
    backoffFactor := ← t.fieldOr "backoff_factor" 3 (·.asNumber?) d.backoffFactor }

def RateLimitSettings.ofToml? (t : Toml) : Option RateLimitSettings := do
  let d : RateLimitSettings := {}
  some {
    defaultLimit := ← t.fieldOr "default_limit" 0 (·.asWord64?) d.defaultLimit
    windowMs := ← t.fieldOr "window_ms" 1 (·.asWord64?) d.windowMs
    limits := ← t.fieldOr "limits" 2 (·.asMap? (·.asWord64?)) d.limits }

def StreamSettings.ofToml? (t : Toml) : Option StreamSettings := do
  let d : StreamSettings := {}
  some {
    headers := ← t.fieldOr "headers" 0 (·.asMap? (·.asString?)) d.headers
    reconnect := ← t.fieldOr "reconnect" 1 (·.asBoolean?) d.reconnect
    handshakeTimeoutMs := ← t.fieldOr "handshake_timeout_ms" 2 (·.asWord64?) d.handshakeTimeoutMs
    pingIntervalMs := ← t.fieldOr "ping_interval_ms" 3 (·.asWord64?) d.pingIntervalMs
    reconnectDelayMs := ← t.fieldOr "reconnect_delay_ms" 4 (·.asWord64?) d.reconnectDelayMs
    writeTimeoutMs := ← t.fieldOr "write_timeout_ms" 5 (·.asWord64?) d.writeTimeoutMs
    channelCapacity := ← t.fieldOr "channel_capacity" 6 (·.asWord64?) d.channelCapacity }

def LoggingSettings.ofToml? (t : Toml) : Option LoggingSettings := do
  let d : LoggingSettings := {}
  some {
    level := ← t.fieldOr "level" 0 (·.asString?) d.level
    format := ← t.fieldOr "format" 1 (·.asString?) d.format }

namespace Settings

/-- The settings that a document describes. -/
def ofToml? (t : Toml) : Option Settings := do
  some {
    http := ← t.fieldOr "http" 0 HttpSettings.ofToml? {}
    retry := ← t.fieldOr "retry" 1 RetrySettings.ofToml? {}
    rateLimit := ← t.fieldOr "rate_limit" 2 RateLimitSettings.ofToml? {}
    stream := ← t.fieldOr "stream" 3 StreamSettings.ofToml? {}
    logging := ← t.fieldOr "logging" 4 LoggingSettings.ofToml? {} }

/-- The settings that a text describes, without a look at their values. -/
def parse (text : String) : Except Error Settings :=
  match Toml.parse? text >>= ofToml? with
  | some s => .ok s
  | none => .error (.config .parse)

/-- What is found where a file of settings should be. -/
inductive Source where
  | missing
  | directory
  | bytes (content : List UInt8)

/-- The text of a file. -/
def Source.text : Source → Except Error String
  | .missing => .error (.config (.unreadable "No such file or directory (os error 2)"))
  | .directory => .error (.config (.unreadable "Is a directory (os error 21)"))
  | .bytes content =>
    match Text.Utf8.decode? content with
    | some cs => .ok (String.ofList cs)
    | none => .error (.config (.unreadable "stream did not contain valid UTF-8"))

/-- The settings in a file, with a proxy in place of theirs, if all are valid. -/
def load (source : Source) (proxy : Option String) : Except Error Settings := do
  let text ← source.text
  let settings ← parse text
  let settings := settings.overrideProxy proxy
  settings.validate
  .ok settings

/-- The settings of a command: those in a file, or the defaults if there is none. -/
def loadOrDefault (source : Source) (proxy : Option String) : Except Error Settings :=
  match source with
  | .missing => do
    let settings := ({} : Settings).overrideProxy proxy
    settings.validate
    .ok settings
  | source => load source proxy

end Settings

end Uplink
