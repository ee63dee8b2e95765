import Uplink.Limiter
import Uplink.Outgoing
import Uplink.RetryPolicy

/-! Calls: a request is admitted once, attempted, and attempted again after failures that are worth
it. The world of the attempts is a parameter: `attempt` acts on it, `wait` lets time pass in it. -/

namespace Uplink

/-- What the transport reports of a request it was handed. -/
inductive Reply where
  | response (status : Nat) (body : List UInt8)
  | failed (text : String)
deriving DecidableEq

/-- A status of 400 or more is an error that carries the body as text; any other body is decoded. -/
def Reply.outcome (url : String) : Reply → Except Error Variant
  | .failed text => .error (.network url text)
  | .response status body =>
    if 400 ≤ status then .error (.http url status (String.ofList (Text.Utf8.lossy body)))
    else .ok (.decode body)

namespace Call

variable {α σ : Type}

/-- One attempt: the request is made ready and handed to `send` if it can be sent. -/
def attempt (order : List (String × String)) (r : Request) (send : Outgoing → σ → Reply × σ)
    (s : σ) : Except Error Variant × σ :=
  match Outgoing.ofRequest order r with
  | .error e => (.error e, s)
  | .ok out =>
    match out.problem? with
    | some text => (.error (.network r.url text), s)
    | none =>
      let (reply, s) := send out s
      (reply.outcome r.url, s)

/-- Attempts from the one of number `n` on: after a failure worth another attempt, and while the
number is below the limit, `wait` for the delay before the next. -/
def attempts (policy : RetryPolicy) (limit : UInt32) (attempt : σ → Except Error α × σ)
    (wait : UInt32 → Duration → σ → σ) (n : UInt32) (s : σ) : Except Error α × σ :=
  match attempt s with
  | (.ok a, s) => (.ok a, s)
  | (.error e, s) =>
    if h : e.isRetryable = true ∧ n < limit then
      attempts policy limit attempt wait (n + 1) (wait (n + 1) (policy.delay (n + 1)) s)
    else (.error e, s)
termination_by limit.toNat - n.toNat
decreasing_by
  have hlt : n.toNat < limit.toNat := UInt32.lt_iff_toNat_lt.mp h.2
  have hl := limit.toNat_lt
  have : (n + 1).toNat = n.toNat + 1 := by
    rw [UInt32.toNat_add, UInt32.toNat_one]
    exact Nat.mod_eq_of_lt (by omega)
  omega

/-- The most retries of a request. -/
def limit (policy : RetryPolicy) (r : Request) : UInt32 :=
  if r.retry then policy.maxAttempts else 0

/-- A call as a whole, at a reading of the clock: the limiter is asked once if the request names a
key, and a denial ends the call before any attempt. -/
def execute (policy : RetryPolicy) (r : Request) (attempt : σ → Except Error α × σ)
    (wait : UInt32 → Duration → σ → σ) (now : Instant) (l : Limiter) (s : σ) :
    Except Error α × Limiter × σ :=
  match r.rateLimitKey with
  | none =>
    let (result, s) := attempts policy (limit policy r) attempt wait 0 s
    (result, l, s)
  | some key =>
    match l.allow key now with
    | (false, l) => (.error (.rateLimited key), l, s)
    | (true, l) =>
      let (result, s) := attempts policy (limit policy r) attempt wait 0 s
      (result, l, s)

end Call

end Uplink
