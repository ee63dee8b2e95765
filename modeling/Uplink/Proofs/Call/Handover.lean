import Uplink.Proofs.Call.Unsendable
import Uplink.Proofs.Variant.RoundTrip

/-! What a call hands over to the transport. Whatever attempt it is, and in whatever order the
headers and the entries of maps come, it is what may be sent for the request; and a call that is let
through does hand its request over, if the transport can send to the URL. -/

namespace Uplink

/-- What is made ready has a URL and no header that is no field. -/
theorem Outgoing.of_ofRequest {order : List (String × String)} {r : Request} {out : Outgoing}
    (h : ofRequest order r = .ok out) : (∃ url, Url.parse r.url = .ok url) ∧
      headerProblem? order = none ∧ out.body = bodyBytes r.body ∧
        out.headers = callerHeaders order r.body := by
  cases hurl : Url.parse r.url with
  | error e =>
    simp only [ofRequest, hurl] at h
    cases h
  | ok url =>
    cases hfields : headerProblem? order with
    | some text =>
      rw [ofRequest_of_problem hurl hfields] at h
      cases h
    | none =>
      rw [ofRequest_of_fields hurl hfields] at h
      obtain rfl := Except.ok.inj h
      exact ⟨⟨url, rfl⟩, rfl, rfl, rfl⟩

namespace Request

/-- Bodies that differ in the order of map entries at most. -/
inductive Body.Same : Body → Body → Prop
  | text (content : String) : Same (.text content) (.text content)
  | bytes (content : List UInt8) : Same (.bytes content) (.bytes content)
  | json {v w : Variant} (h : Variant.Same v w) : Same (.json v) (.json w)

/-- What may be handed to the transport for a request: its headers and the entries of maps may come
in any order. -/
def MaySend (r : Request) (out : Outgoing) : Prop :=
  ∃ order body, order.Perm r.headers.entries ∧ Option.Rel Body.Same r.body body ∧
    Outgoing.ofRequest order { r with body } = .ok out

variable {r : Request} {out : Outgoing}

theorem Body.Same.refl : ∀ body : Body, Body.Same body body
  | .text content => .text content
  | .bytes content => .bytes content
  | .json v => .json (.refl v)

/-- Only the URL and the headers decide whether anything may be sent. -/
theorem exists_maySend_iff : (∃ out, r.MaySend out) ↔
    ∃ order, order.Perm r.headers.entries ∧ (∃ url, Url.parse r.url = .ok url) ∧
      Outgoing.headerProblem? order = none := by
  constructor
  · rintro ⟨out, order, body, horder, -, hout⟩
    obtain ⟨hurl, hfields, -, -⟩ := Outgoing.of_ofRequest hout
    exact ⟨order, horder, hurl, hfields⟩
  · rintro ⟨order, horder, ⟨url, hurl⟩, hfields⟩
    have hbody : Option.Rel Body.Same r.body r.body := by
      cases r.body with
      | none => exact .none
      | some body => exact .some (.refl body)
    exact ⟨_, order, r.body, horder, hbody, Outgoing.ofRequest_of_fields hurl hfields⟩

/-- A text is sent as it is, and no header besides those of the request. -/
theorem MaySend.of_text {content : String} (h : r.MaySend out)
    (hr : r.body = some (.text content)) :
    out.body = Text.Utf8.encode content.toList ∧ out.headers.Perm r.ownFields := by
  obtain ⟨order, body, horder, hbody, hout⟩ := h
  obtain ⟨-, -, hbytes, hheaders⟩ := Outgoing.of_ofRequest hout
  rw [hr] at hbody
  cases hbody with
  | some hsame =>
    cases hsame
    refine ⟨hbytes, ?_⟩
    rw [hheaders, Outgoing.callerHeaders_of_ne_json (by simp)]
    exact horder.map _

theorem MaySend.of_json {v : Variant} (h : r.MaySend out) (hr : r.body = some (.json v)) :
    ∃ w, Variant.Same v w ∧ out.body = Text.Utf8.encode w.chars := by
  obtain ⟨order, body, -, hbody, hout⟩ := h
  obtain ⟨-, -, hbytes, -⟩ := Outgoing.of_ofRequest hout
  rw [hr] at hbody
  cases hbody with
  | some hsame =>
    cases hsame with
    | json hw => exact ⟨_, hw, hbytes⟩

end Request

namespace Call

variable {α σ : Type} {policy : RetryPolicy} {wait : UInt32 → Duration → σ → σ} {P : σ → Prop}

section Invariant

variable {attempt : σ → Except Error α × σ}

/-- What attempts and waits keep holds after a call. -/
theorem attempts_keeps (hattempt : ∀ s, P s → P (attempt s).2)
    (hwait : ∀ n delay s, P s → P (wait n delay s)) (limit n : UInt32) (s : σ) (h : P s) :
    P (attempts policy limit attempt wait n s).2 := by
  fun_induction attempts policy limit attempt wait n s with
  | case1 n s a t heq =>
    have hkept := hattempt s h
    rwa [heq] at hkept
  | case2 n s e t heq hgo ih =>
    have hkept := hattempt s h
    rw [heq] at hkept
    exact ih (hwait _ _ _ hkept)
  | case3 n s e t heq hstop =>
    have hkept := hattempt s h
    rwa [heq] at hkept

/-- What the first of some attempts leaves, if all others and the waits keep it. -/
theorem attempts_reaches {s : σ} (hfirst : P (attempt s).2) (hattempt : ∀ s, P s → P (attempt s).2)
    (hwait : ∀ n delay s, P s → P (wait n delay s)) (limit n : UInt32) :
    P (attempts policy limit attempt wait n s).2 := by
  rw [attempts]
  split
  · next a t heq => rwa [heq] at hfirst
  · next e t heq =>
    rw [heq] at hfirst
    split
    · exact attempts_keeps hattempt hwait _ _ _ (hwait _ _ _ hfirst)
    · exact hfirst

theorem execute_keeps (hattempt : ∀ s, P s → P (attempt s).2)
    (hwait : ∀ n delay s, P s → P (wait n delay s)) (r : Request) (now : Instant) (l : Limiter)
    (s : σ) (h : P s) : P (execute policy r attempt wait now l s).2.2 := by
  unfold execute
  split
  · exact attempts_keeps hattempt hwait _ _ s h
  · split
    · exact h
    · exact attempts_keeps hattempt hwait _ _ s h

end Invariant

/-- What a call hands over in its attempts, one after another. -/
def handed (policy : RetryPolicy) (order : List (String × String)) (r : Request)
    (send : Outgoing → σ → Reply × σ) (wait : UInt32 → Duration → σ → σ) (now : Instant)
    (l : Limiter) (s : σ) : List Outgoing := (executeNoted policy order r send wait now l s).2.2.1.2

variable {r : Request} {order : List (String × String)} {out : Outgoing}
  {send : Outgoing → σ → Reply × σ} {now : Instant} {l : Limiter} {s : σ}

/-- An attempt hands over what the request is made ready as, and leaves what was handed over. -/
theorem mem_noteAttempt {t : (σ × List Outgoing) × List (Deed Variant)} :
    out ∈ (noteAttempt (attempt order r (noteSend send)) t).2.1.2 ↔
      out ∈ t.1.2 ∨ Outgoing.ofRequest order r = .ok out ∧ out.problem? = none := by
  unfold noteAttempt attempt
  cases hready : Outgoing.ofRequest order r with
  | error e => simp
  | ok ready =>
    cases hproblem : ready.problem? with
    | some text =>
      simp only [hproblem]
      refine ⟨.inl, ?_⟩
      rintro (hmem | ⟨heq, hnone⟩)
      · exact hmem
      · cases heq
        cases hproblem.symm.trans hnone
    | none =>
      simp only [hproblem, noteSend, List.mem_append, List.mem_singleton]
      refine or_congr_right ⟨?_, ?_⟩
      · rintro rfl
        exact ⟨rfl, hproblem⟩
      · rintro ⟨heq, -⟩
        cases heq
        rfl

/-- Whatever a call hands over, in whichever of its attempts, is what its request is made ready
as. -/
theorem ready_of_mem_handed (h : out ∈ handed policy order r send wait now l s) :
    Outgoing.ofRequest order r = .ok out ∧ out.problem? = none := by
  let P (t : (σ × List Outgoing) × List (Deed Variant)) : Prop :=
    out ∈ t.1.2 → Outgoing.ofRequest order r = .ok out ∧ out.problem? = none
  have hattempt (t) (ht : P t) : P (noteAttempt (attempt order r (noteSend send)) t).2 :=
    fun hout => (mem_noteAttempt.mp hout).elim ht id
  have hwait (n delay t) (ht : P t) : P (noteWait (waitUnsent wait) n delay t) := ht
  have hstart : P ((s, []), []) := fun hnone => absurd hnone List.not_mem_nil
  exact execute_keeps hattempt hwait r now l _ hstart h

/-- A call that is let through hands its request over, if the transport can send to the URL. -/
theorem mem_handed (hready : Outgoing.ofRequest order r = .ok out) (hsends : out.problem? = none)
    (hadmitted : IsAdmitted r now l) : out ∈ handed policy order r send wait now l s := by
  let P (t : (σ × List Outgoing) × List (Deed Variant)) : Prop := out ∈ t.1.2
  have hattempt (t) (ht : P t) : P (noteAttempt (attempt order r (noteSend send)) t).2 :=
    mem_noteAttempt.mpr (.inl ht)
  have hwait (n delay t) (ht : P t) : P (noteWait (waitUnsent wait) n delay t) := ht
  have hfirst : P (noteAttempt (attempt order r (noteSend send)) ((s, []), [])).2 :=
    mem_noteAttempt.mpr (.inr ⟨hready, hsends⟩)
  rw [handed, executeNoted, execute_of_admitted hadmitted]
  exact attempts_reaches hfirst hattempt hwait _ _

/-- Calls of a request hand over nothing but what may be sent for it, in whichever of their
attempts; and a call that is let through does hand its request over, if the transport can send to
the URL. -/
def HandsOver (r : Request) : Prop :=
  ∀ {σ : Type} (policy : RetryPolicy) (order : List (String × String)) (body : Option Request.Body)
    (send : Outgoing → σ → Reply × σ) (wait : UInt32 → Duration → σ → σ) (now : Instant)
    (l : Limiter) (s : σ), order.Perm r.headers.entries → Option.Rel Request.Body.Same r.body body →
    (∀ out ∈ handed policy order { r with body } send wait now l s, r.MaySend out) ∧
    ∀ out, Outgoing.ofRequest order { r with body } = .ok out → out.problem? = none →
      IsAdmitted r now l → out ∈ handed policy order { r with body } send wait now l s

theorem handsOver (r : Request) : HandsOver r := by
  intro σ policy order body send wait now l s horder hbody
  constructor
  · exact fun out hout => ⟨order, body, horder, hbody, (ready_of_mem_handed hout).1⟩
  · exact fun out hready hsends hadmitted => mem_handed hready hsends hadmitted

end Call

end Uplink
