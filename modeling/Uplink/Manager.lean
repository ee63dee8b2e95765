import Uplink.Call
import Uplink.Settings
import Uplink.Stream.Registry.Settle

/-! A network of one program: its calls share a limiter and a policy of retries, its streams a
registry. Everything is made from settings. -/

namespace Uplink

/-- The clock during a call, and the waits of the call so far. -/
structure Timeline where
  now : Instant
  waits : List (UInt32 × Duration)

/-- Waits before an attempt: the clock goes on by whole milliseconds. -/
def Timeline.wait (attempt : UInt32) (delay : Duration) (t : Timeline) : Timeline :=
  ⟨t.now + delay.millisUp * 1000000, t.waits ++ [(attempt, delay)]⟩

/-- Whether calls can go through a proxy: it is a URL with a host, if need be after its scheme is
put in front of it. -/
def HttpSettings.isUsableProxy (proxy : String) : Bool :=
  let namesHost (text : String) : Bool := match Url.parse text with
    | .ok url => url.hasHost
    | .error _ => false
  match Url.parse proxy with
  | .ok url => url.hasHost || namesHost ("http://" ++ proxy)
  | .error .relativeWithoutBase => namesHost ("http://" ++ proxy)
  | .error _ => false

/-- What keeps calls from being made with the settings, if anything does. -/
def HttpSettings.problem? (s : HttpSettings) : Option Error :=
  if (s.proxy.map HttpSettings.isUsableProxy).getD true then
    if (s.userAgent.map Header.isValue).getD true then none
    else some (.network "http client" "builder error")
  else some (.config (.invalidValue "http.proxy" "builder error"))

structure Manager where
  policy : RetryPolicy
  limiter : Limiter
  streamDefaults : StreamSettings
  registry : Stream.Registry

namespace Manager

/-- A network without streams, at a clock that reads zero at a given time of the wall clock. -/
def ofSettings (s : Settings) (epoch : Int) : Except Error Manager := do
  s.validate
  match s.http.problem? with
  | some e => .error e
  | none => .ok ⟨s.retry.policy, s.rateLimit.limiter, s.stream, .empty epoch⟩

/-- Time passes. -/
def elapse (network : Stream.Network) (m : Manager) (nanos : Nat) : Manager :=
  match m.registry.next? (.elapse nanos) with
  | some (registry, _) => { m with registry := registry.settle network }
  | none => m

/-- A call at the present time, each attempt being answered as `send` says; the waits of the call
come with the result. -/
def request (network : Stream.Network) (send : Outgoing → Reply) (m : Manager) (r : Request) :
    Except Error Variant × List (UInt32 × Duration) × Manager :=
  let start := m.registry.now
  let attempt := Call.attempt r.headers.entries r fun out (t : Timeline) => (send out, t)
  let (result, limiter, t) :=
    Call.execute m.policy r attempt Timeline.wait start m.limiter ⟨start, []⟩
  (result, t.waits, elapse network { m with limiter } (t.now - start))

/-- A call on the registry; it is answered, or still waits. -/
def ask (network : Stream.Network) (m : Manager) (call : Stream.Registry.Call) :
    Option Stream.Registry.Answer × Manager :=
  let (answer, registry) := m.registry.ask network call
  (answer, { m with registry })

end Manager

end Uplink
