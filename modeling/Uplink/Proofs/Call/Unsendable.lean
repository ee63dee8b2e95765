import Uplink.Proofs.Call.Headers
import Uplink.Proofs.Call.Protocol

/-! Calls of requests that can never be sent. A text that is no URL and a header that is no field
end a call with its first attempt. A URL that the transport cannot send to counts as a failure of
the network, so that the call attempts again as after any other; but nothing is ever handed over. -/

namespace Uplink.Call

variable {α σ : Type} {policy : RetryPolicy} {r : Request} {order : List (String × String)}
  {send : Outgoing → σ → Reply × σ} {wait : UInt32 → Duration → σ → σ} {now : Instant} {l : Limiter}
  {s : σ} {e : Error} {out : Outgoing} {text : String}

/-- A transport that writes down what it is handed. -/
def noteSend (send : Outgoing → σ → Reply × σ) (out : Outgoing) (s : σ × List Outgoing) :
    Reply × σ × List Outgoing :=
  ((send out s.1).1, (send out s.1).2, s.2 ++ [out])

/-- A wait, during which nothing is sent. -/
def waitUnsent (wait : UInt32 → Duration → σ → σ) (n : UInt32) (delay : Duration)
    (s : σ × List Outgoing) : σ × List Outgoing :=
  (wait n delay s.1, s.2)

/-- A call, with what it sends, its attempts and its waits written down. -/
def executeNoted (policy : RetryPolicy) (order : List (String × String)) (r : Request)
    (send : Outgoing → σ → Reply × σ) (wait : UInt32 → Duration → σ → σ) (now : Instant)
    (l : Limiter) (s : σ) :
    Except Error Variant × Limiter × (σ × List Outgoing) × List (Deed Variant) :=
  execute policy r (noteAttempt (attempt order r (noteSend send))) (noteWait (waitUnsent wait)) now
    l ((s, []), [])

/-- The world after nothing but the waits before some attempts. -/
def waited (policy : RetryPolicy) (wait : UInt32 → Duration → σ → σ) (s : σ) : Nat → σ
  | 0 => s
  | n + 1 => wait (.ofNat (n + 1)) (policy.delay (.ofNat (n + 1))) (waited policy wait s n)

/-- Whether the limiter lets a call through. -/
def IsAdmitted (r : Request) (now : Instant) (l : Limiter) : Prop :=
  ∀ key, r.rateLimitKey = some key → (l.allow key now).1 = true

/-- The limiter after a call has asked it, if the call names a key. -/
def asked (r : Request) (now : Instant) (l : Limiter) : Limiter :=
  match r.rateLimitKey with
  | none => l
  | some key => (l.allow key now).2

/-- The text of a request is no URL, or one of its headers is no field. -/
def IsMalformed (r : Request) : Prop :=
  (∀ url, Url.parse r.url ≠ .ok url) ∨
    ∃ h ∈ r.headers.entries, ¬(Header.isName h.1 = true ∧ Header.isValue h.2 = true)

/-! ### Attempts that come to nothing -/

theorem execute_of_admitted {attempt : σ → Except Error α × σ} (h : IsAdmitted r now l) :
    execute policy r attempt wait now l s =
      ((attempts policy (limit policy r) attempt wait 0 s).1, asked r now l,
        (attempts policy (limit policy r) attempt wait 0 s).2) := by
  cases hkey : r.rateLimitKey with
  | none => simp only [execute, asked, hkey]
  | some key =>
    have hallow := h key hkey
    cases hafter : l.allow key now with
    | mk admitted after =>
      rw [hafter] at hallow
      cases hallow
      simp only [execute, asked, hkey, hafter]

theorem toNat_limit (policy : RetryPolicy) (r : Request) :
    (limit policy r).toNat = if r.retry then policy.maxAttempts.toNat else 0 := by
  rw [limit]
  split <;> rfl

section Idle

variable {attempt : σ → Except Error α × σ}

theorem worldBefore_of_idle (h : ∀ s, attempt s = (.error e, s)) (n : Nat) :
    worldBefore policy attempt wait s n = waited policy wait s n := by
  induction n with
  | zero => rfl
  | succ n ih => rw [worldBefore, ih, h, waited]

theorem outcome_of_idle (h : ∀ s, attempt s = (.error e, s)) :
    outcome policy attempt wait s = fun _ => .error e := by
  funext n
  rw [outcome, h]

/-- Attempts that all fail alike end with the first, or else only with the last there may be. -/
theorem isLeast_ends (e : Error) (m : Nat) :
    IsLeast {i | Ends m (fun _ => (.error e : Except Error α)) i}
      (if e.isRetryable then m else 0) := by
  cases hretry : e.isRetryable with
  | false => exact ⟨.inr (.inl ⟨e, rfl, hretry⟩), fun _ _ => Nat.zero_le _⟩
  | true =>
    refine ⟨.inr (.inr rfl), fun i hi => ?_⟩
    by_contra hlt
    have hne : i ≠ m := fun him => hlt (Nat.le_of_eq him.symm)
    have hnot : ¬Ends m (fun _ => (.error e : Except Error α)) i :=
      not_ends_iff.mpr ⟨e, rfl, hretry, hne⟩
    exact hnot hi

theorem attempts_of_idle (limit : UInt32) (h : ∀ s, attempt s = (.error e, s)) :
    attempts policy limit (noteAttempt attempt) (noteWait wait) 0 (s, []) =
      (.error e, waited policy wait s (if e.isRetryable then limit.toNat else 0),
        deeds policy (fun _ => .error e) (if e.isRetryable then limit.toNat else 0)) := by
  have hle : (if e.isRetryable then limit.toNat else 0) ≤ limit.toNat := by
    split
    · exact Nat.le_refl _
    · exact Nat.zero_le _
  rw [attempts_note (by rw [outcome_of_idle h]; exact isLeast_ends e limit.toNat) hle,
    outcome_of_idle h, worldBefore_of_idle h, h]

end Idle

/-- What is noted of sends stays as it is in a world that only waits. -/
theorem waited_waitUnsent (n : Nat) :
    waited policy (waitUnsent wait) (s, []) n = (waited policy wait s n, []) := by
  induction n with
  | zero => rfl
  | succ n ih => rw [waited, ih, waitUnsent, waited]

/-- A call that is let through, all of whose attempts come to nothing in the same way. -/
theorem executeNoted_of_idle (hadmitted : IsAdmitted r now l)
    (h : ∀ s : σ × List Outgoing, attempt order r (noteSend send) s = (.error e, s)) :
    executeNoted policy order r send wait now l s =
      (.error e, asked r now l,
        (waited policy wait s (if e.isRetryable then (limit policy r).toNat else 0), []),
        deeds policy (fun _ => .error e)
          (if e.isRetryable then (limit policy r).toNat else 0)) := by
  rw [executeNoted, execute_of_admitted hadmitted, attempts_of_idle _ h, waited_waitUnsent]

/-! ### Requests that cannot be sent -/

theorem exists_error_of_malformed (horder : order.Perm r.headers.entries) (h : IsMalformed r) :
    ∃ e, Outgoing.ofRequest order r = .error e ∧
      ((∃ cause, e = .url cause) ∨ ∃ text, e = .invalidRequest text) := by
  cases hurl : Url.parse r.url with
  | error cause => exact ⟨.url cause, by simp only [Outgoing.ofRequest, hurl], .inl ⟨cause, rfl⟩⟩
  | ok url =>
    rcases h with hnone | ⟨f, hf, hbad⟩
    · exact absurd hurl (hnone url)
    · obtain ⟨text, htext⟩ :=
        (Outgoing.ofRequest_eq_invalidRequest_iff hurl).mpr ⟨f, horder.mem_iff.mpr hf, hbad⟩
      exact ⟨_, htext, .inr ⟨text, rfl⟩⟩

theorem attempt_of_error (h : Outgoing.ofRequest order r = .error e) (s : σ) :
    attempt order r send s = (.error e, s) := by
  simp only [attempt, h]

theorem attempt_of_problem (h : Outgoing.ofRequest order r = .ok out)
    (hproblem : out.problem? = some text) (s : σ) :
    attempt order r send s = (.error (.network r.url text), s) := by
  simp only [attempt, h, hproblem]

/-- The failure of each attempt at a URL that the transport cannot send to. -/
def unsendableError (r : Request) (url : Url) : Error :=
  .network r.url ("builder error for url (" ++ url.withoutCredentials.text ++ ")")

theorem attempt_of_unsendable {url : Url} (hfields : Outgoing.headerProblem? order = none)
    (hurl : Url.parse r.url = .ok url)
    (hsendable : Outgoing.isSendable url.withoutCredentials = false) (s : σ) :
    attempt order r send s = (.error (unsendableError r url), s) := by
  refine attempt_of_problem (Outgoing.ofRequest_of_fields hurl hfields) ?_ s
  rw [Outgoing.problem?, hsendable, if_neg Bool.false_ne_true]

/-- A call that is let through hands nothing over if its request cannot be sent. If the request is
malformed, the call ends with its only attempt. If it is not, but the transport cannot send to its
URL, then the call attempts as often as it may, and waits before each attempt but the first. -/
theorem executeNoted_of_unsendable (policy : RetryPolicy) (horder : order.Perm r.headers.entries)
    (send : Outgoing → σ → Reply × σ) (wait : UInt32 → Duration → σ → σ) (s : σ)
    (hadmitted : IsAdmitted r now l) :
    (IsMalformed r → ∃ e, ((∃ cause, e = .url cause) ∨ ∃ text, e = .invalidRequest text) ∧
      executeNoted policy order r send wait now l s =
        (.error e, asked r now l, (s, []), [.attempted (.error e)])) ∧
    ∀ url, ¬IsMalformed r → Url.parse r.url = .ok url →
      Outgoing.isSendable url.withoutCredentials = false →
      let k := if r.retry then policy.maxAttempts.toNat else 0
      executeNoted policy order r send wait now l s =
        (.error (unsendableError r url), asked r now l, (waited policy wait s k, []),
          deeds policy (fun _ => .error (unsendableError r url)) k) := by
  constructor
  · intro hmalformed
    obtain ⟨e, he, hkind⟩ := exists_error_of_malformed horder hmalformed
    have hfinal : e.isRetryable = false := by
      rcases hkind with ⟨_, rfl⟩ | ⟨_, rfl⟩ <;> rfl
    refine ⟨e, hkind, ?_⟩
    rw [executeNoted_of_idle hadmitted (attempt_of_error he), hfinal]
    rfl
  · intro url hwell hurl hsendable k
    have hfields : Outgoing.headerProblem? order = none :=
      Outgoing.headerProblem?_eq_none_iff.mpr fun h hh => by
        by_contra hbad
        exact hwell (.inr ⟨h, horder.mem_iff.mp hh, hbad⟩)
    rw [executeNoted_of_idle hadmitted (attempt_of_unsendable hfields hurl hsendable), toNat_limit]
    rfl

/-- A far end that takes whatever it is sent. -/
def taking (_ : Outgoing) (s : Unit) : Reply × Unit := (.response 200 [], s)

/-- A request for a file of another kind of server. -/
def fileRequest : Request := .ofMethod "GET" "ftp://host/"

/-- The URL of the request. -/
def fileUrl : Url := ⟨"ftp", some ⟨"", none, .domain "host", none⟩, .segments [""], none, none⟩

theorem parse_fileRequest : Url.parse fileRequest.url = .ok fileUrl := by with_unfolding_all rfl

theorem not_isMalformed_fileRequest : ¬IsMalformed fileRequest := by
  rintro (hnone | ⟨h, hh, -⟩)
  · exact hnone fileUrl parse_fileRequest
  · cases hh

/-- A name with a blank ends the call at once; a scheme of other servers does not, unless the
request may not be repeated. -/
theorem executeNoted_of_blank_name :
    (∃ e, executeNoted .default [("bad header", "v")]
      ((Request.ofMethod "GET" "http://host/").withHeader "bad header" "v") taking
      (fun _ _ s => s) 0 (.ofCeilings 1 (.ofMillis 1000) ∅) () =
        (.error e, .ofCeilings 1 (.ofMillis 1000) ∅, ((), []), [.attempted (.error e)])) ∧
    executeNoted .default [] (fileRequest.withRetry false) taking (fun _ _ s => s) 0
      (.ofCeilings 1 (.ofMillis 1000) ∅) () =
        (.error (unsendableError fileRequest fileUrl), .ofCeilings 1 (.ofMillis 1000) ∅, ((), []),
          [.attempted (.error (unsendableError fileRequest fileUrl))]) := by
  have hnamed : IsAdmitted ((Request.ofMethod "GET" "http://host/").withHeader "bad header" "v") 0
      (.ofCeilings 1 (.ofMillis 1000) ∅) := fun _ h => nomatch h
  have honce : IsAdmitted (fileRequest.withRetry false) 0 (.ofCeilings 1 (.ofMillis 1000) ∅) :=
    fun _ h => nomatch h
  have hblank := (executeNoted_of_unsendable .default (.refl _) taking (fun _ _ s => s) () hnamed).1
    (.inr ⟨("bad header", "v"), .head _, by decide +kernel⟩)
  have hfile := (executeNoted_of_unsendable .default (.refl _) taking (fun _ _ s => s) () honce).2
    fileUrl not_isMalformed_fileRequest parse_fileRequest (by decide +kernel)
  exact ⟨hblank.imp fun _ h => h.2, hfile⟩

/-- A call to a server of another kind is let through, cannot be sent, and is attempted four times
with three waits. -/
theorem repeats_unsendable :
    IsAdmitted fileRequest 0 (.ofCeilings 1 (.ofMillis 1000) ∅) ∧
    Outgoing.isSendable fileUrl.withoutCredentials = false ∧
    executeNoted .default [] fileRequest taking (fun _ _ s => s) 0
      (.ofCeilings 1 (.ofMillis 1000) ∅) () =
        (.error (unsendableError fileRequest fileUrl), .ofCeilings 1 (.ofMillis 1000) ∅, ((), []),
          [.attempted (.error (unsendableError fileRequest fileUrl)),
            .waited 1 (RetryPolicy.default.delay 1),
            .attempted (.error (unsendableError fileRequest fileUrl)),
            .waited 2 (RetryPolicy.default.delay 2),
            .attempted (.error (unsendableError fileRequest fileUrl)),
            .waited 3 (RetryPolicy.default.delay 3),
            .attempted (.error (unsendableError fileRequest fileUrl))]) := by
  have hadmitted : IsAdmitted fileRequest 0 (.ofCeilings 1 (.ofMillis 1000) ∅) :=
    fun _ h => nomatch h
  have hsendable : Outgoing.isSendable fileUrl.withoutCredentials = false := by decide +kernel
  refine ⟨hadmitted, hsendable, ?_⟩
  exact executeNoted_of_idle hadmitted (attempt_of_unsendable rfl parse_fileRequest hsendable)

end Uplink.Call
