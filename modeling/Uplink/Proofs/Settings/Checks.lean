import Uplink.Settings.Decode

/-! What settings are that pass their checks, and that those which are loaded from a file do. -/

namespace Uplink

variable {ε α β : Type}

/-- A check passes, and so does what comes after it. -/
theorem check_eq_ok {c : Prop} [Decidable c] {e : ε} {rest : Except ε α} {a : α} :
    (if c then .error e else rest) = .ok a ↔ ¬c ∧ rest = .ok a := by
  split <;> simp [*]

theorem bind_eq_ok {x : Except ε α} {f : α → Except ε β} {b : β} :
    (x >>= f) = .ok b ↔ ∃ a, x = .ok a ∧ f a = .ok b := by
  cases x <;> simp [bind, Except.bind]

theorem StreamSettings.validate_eq_ok_iff {s : StreamSettings} : s.validate = .ok () ↔
    s.channelCapacity ≠ 0 ∧ s.handshakeTimeoutMs ≠ 0 ∧ s.writeTimeoutMs ≠ 0 := by
  simp only [validate, check_eq_ok, and_true]

namespace Settings

/-- What settings have to be to pass their check. -/
structure IsValid (s : Settings) : Prop where
  timeout : s.http.timeoutMs ≠ 0
  proxy : ∀ proxy, s.http.proxy = some proxy → validateProxy proxy = .ok ()
  factor : s.retry.backoffFactor.isFinite = true ∧ Binary64.zero.le s.retry.backoffFactor = true
  delays : s.retry.baseDelayMs ≤ s.retry.maxDelayMs
  window : s.rateLimit.windowMs ≠ 0
  stream : s.stream.validate = .ok ()

theorem validate_eq_ok_iff {s : Settings} : s.validate = .ok () ↔ s.IsValid := by
  simp only [validate, bind, Except.bind, check_eq_ok]
  constructor
  · rintro ⟨htimeout, h⟩
    have hproxy : ∀ proxy, s.http.proxy = some proxy → validateProxy proxy = .ok () := by
      intro proxy hsome
      simp only [hsome] at h
      split at h
      · cases h
      · next hvalid => exact hvalid
    obtain ⟨hfactor, hdelays, hwindow, hstream⟩ :
        (s.retry.backoffFactor.isFinite = true ∧ Binary64.zero.le s.retry.backoffFactor = true) ∧
          s.retry.baseDelayMs ≤ s.retry.maxDelayMs ∧ s.rateLimit.windowMs ≠ 0 ∧
          s.stream.validate = .ok () := by
      split at h
      · next proxy hsome => simpa [hproxy proxy hsome, check_eq_ok] using h
      · simpa [check_eq_ok] using h
    exact ⟨htimeout, hproxy, hfactor, hdelays, hwindow, hstream⟩
  · intro h
    refine ⟨h.timeout, ?_⟩
    split
    · next proxy hsome =>
      simp [h.proxy proxy hsome, h.factor, h.delays, h.window, h.stream]
    · simp [h.factor, h.delays, h.window, h.stream]

/-- Settings are loaded only if they pass their check. -/
theorem isValid_of_load {source : Source} {proxy : Option String} {s : Settings}
    (h : load source proxy = .ok s) : s.IsValid := by
  unfold load at h
  obtain ⟨text, -, h⟩ := bind_eq_ok.mp h
  obtain ⟨loaded, -, h⟩ := bind_eq_ok.mp h
  obtain ⟨⟨⟩, hvalid, h⟩ := bind_eq_ok.mp h
  cases h
  exact validate_eq_ok_iff.mp hvalid

end Settings

end Uplink
